import MiniLisp.Proofs.Value.Lifting

/-!
# Builtin functions on related arguments

Every builtin function takes related arguments to related results or fails on both with the same
fault: it compares functions, moves them around and never looks inside.
-/

namespace MiniLisp.Builtin

variable {φ ψ : Type}

/-- Two outcomes agree if they are related results or one and the same fault. -/
inductive Agree {α β : Type} (related : α → β → Prop) :
    Except Fault α → Except Fault β → Prop where
  | ok {left : α} {right : β} : related left right → Agree related (.ok left) (.ok right)
  | error (fault : Fault) : Agree related (.error fault) (.error fault)

namespace Agree

variable {α β γ δ : Type} {related : α → β → Prop} {next : γ → δ → Prop}

/-- Outcomes that agree still agree when both are continued alike. -/
theorem bind {left : Except Fault α} {right : Except Fault β}
    {leftNext : α → Except Fault γ} {rightNext : β → Except Fault δ}
    (agree : Agree related left right)
    (continued : ∀ first second, related first second →
      Agree next (leftNext first) (rightNext second)) :
    Agree next (left >>= leftNext) (right >>= rightNext) := by
  cases agree with
  | ok holds => exact continued _ _ holds
  | error fault => exact .error fault

/-- An outcome agrees with itself. -/
theorem refl (outcome : Except Fault α) : Agree Eq outcome outcome := by
  cases outcome with
  | ok result => exact .ok rfl
  | error fault => exact .error fault

end Agree

variable {related : φ → ψ → Prop}


/-! ## Arguments -/

theorem integer_agree {left : Value φ} {right : Value ψ} (lifted : Value.Lift related left right) :
    Agree Eq (integer left) (integer right) := by
  have types := lifted.type_eq
  cases left <;> cases right <;> simp only [Value.Lift] at lifted
  case int.int => exact .ok lifted
  all_goals
    simp only [integer, types]
    exact .error _

theorem items_agree {left : Value φ} {right : Value ψ} (lifted : Value.Lift related left right) :
    Agree (Value.LiftItems related) (items left) (items right) := by
  have types := lifted.type_eq
  cases left <;> cases right <;> simp only [Value.Lift] at lifted
  case list.list => exact .ok lifted
  all_goals
    simp only [items, types]
    exact .error _

variable {lefts : List (Value φ)} {rights : List (Value ψ)}

theorem length_eq_of_liftItems (lifted : Value.LiftItems related lefts rights) :
    lefts.length = rights.length :=
  (Value.liftItems_iff_forall₂.mp lifted).length_eq

theorem single_agree (lifted : Value.LiftItems related lefts rights) :
    Agree (Value.Lift related) (single lefts) (single rights) := by
  have lengths := length_eq_of_liftItems lifted
  match lefts, rights, lifted with
  | [], [], _ => exact .error _
  | [_], [_], lifted => exact .ok lifted.1
  | _ :: _ :: _, _ :: _ :: _, _ =>
    simp only [single, lengths]
    exact .error _
  | [_], _ :: _ :: _, lifted => exact lifted.2.elim
  | _ :: _ :: _, [_], lifted => exact lifted.2.elim

theorem pair_agree (lifted : Value.LiftItems related lefts rights) :
    Agree (fun left right => Value.Lift related left.1 right.1 ∧ Value.Lift related left.2 right.2)
      (pair lefts) (pair rights) := by
  have lengths := length_eq_of_liftItems lifted
  match lefts, rights, lifted with
  | [], [], _ => exact .error _
  | [_], [_], _ => exact .error _
  | [_, _], [_, _], lifted => exact .ok ⟨lifted.1, lifted.2.1⟩
  | _ :: _ :: _ :: _, _ :: _ :: _ :: _, _ =>
    simp only [pair, lengths]
    exact .error _
  | [_], _ :: _ :: _, lifted => exact lifted.2.elim
  | _ :: _ :: _, [_], lifted => exact lifted.2.elim
  | [_, _], _ :: _ :: _ :: _, lifted => exact lifted.2.2.elim
  | _ :: _ :: _ :: _, [_, _], lifted => exact lifted.2.2.elim

theorem integerPair_agree (lifted : Value.LiftItems related lefts rights) :
    Agree Eq (integerPair lefts) (integerPair rights) := by
  apply (pair_agree lifted).bind
  intro first second arguments
  apply (integer_agree arguments.1).bind
  intro left left' same
  subst same
  apply (integer_agree arguments.2).bind
  intro right right' same
  subst same
  exact .ok rfl

theorem singleList_agree (lifted : Value.LiftItems related lefts rights) :
    Agree (Value.LiftItems related) (singleList lefts) (singleList rights) :=
  (single_agree lifted).bind fun _ _ => items_agree

theorem integers_agree (lifted : Value.LiftItems related lefts rights) :
    Agree Eq (lefts.mapM integer) (rights.mapM integer) := by
  induction lefts generalizing rights with
  | nil =>
    cases rights with
    | nil => exact .ok rfl
    | cons => exact lifted.elim
  | cons left lefts ih =>
    cases rights with
    | nil => exact lifted.elim
    | cons right rights =>
      simp only [List.mapM_cons]
      apply (integer_agree lifted.1).bind
      intro first _ same
      subst same
      apply (ih lifted.2).bind
      intro rest _ same
      subst same
      exact .ok rfl

/-! ## Operations -/

theorem plus_agree {left left' : Value φ} {right right' : Value ψ}
    (lifted : Value.Lift related left right) (lifted' : Value.Lift related left' right') :
    Agree (Value.Lift related) (plus left left') (plus right right') := by
  have types := lifted.type_eq
  have types' := lifted'.type_eq
  cases left <;> cases right <;> simp only [Value.Lift] at lifted <;>
    cases left' <;> cases right' <;> simp only [Value.Lift] at lifted'
  case int.int.int.int =>
    subst lifted lifted'
    exact (Agree.refl _).bind fun _ _ same => .ok same
  case text.text.text.text =>
    subst lifted lifted'
    exact .ok rfl
  case list.list.list.list =>
    have joined := List.rel_append (Value.liftItems_iff_forall₂.mp lifted)
      (Value.liftItems_iff_forall₂.mp lifted')
    exact .ok (Value.liftItems_iff_forall₂.mpr joined)
  all_goals exact .error _

theorem foldlM_plus_agree {left : Value φ} {right : Value ψ}
    (lifted : Value.Lift related left right) (rest : Value.LiftItems related lefts rights) :
    Agree (Value.Lift related) (lefts.foldlM plus left) (rights.foldlM plus right) := by
  induction lefts generalizing rights left right with
  | nil =>
    cases rights with
    | nil => exact .ok lifted
    | cons => exact rest.elim
  | cons first lefts ih =>
    cases rights with
    | nil => exact rest.elim
    | cons second rights =>
      simp only [List.foldlM_cons]
      exact (plus_agree lifted rest.1).bind fun _ _ sum => ih sum rest.2

theorem compare_agree (holds : Int64 → Int64 → Bool)
    (lifted : Value.LiftItems related lefts rights) :
    Agree (Value.Lift related) (compare holds lefts) (compare holds rights) := by
  apply (integerPair_agree lifted).bind
  intro arguments _ same
  subst same
  exact .ok rfl

theorem add_agree [Callee φ] [Callee ψ] (lifted : Value.LiftItems related lefts rights) :
    Agree (Value.Lift related) (add.apply lefts) (add.apply rights) := by
  cases lefts <;> cases rights
  case nil.nil => exact .error _
  case cons.cons => exact foldlM_plus_agree lifted.1 lifted.2
  all_goals exact lifted.elim

theorem sub_agree [Callee φ] [Callee ψ] (lifted : Value.LiftItems related lefts rights) :
    Agree (Value.Lift related) (sub.apply lefts) (sub.apply rights) := by
  cases lefts <;> cases rights
  case nil.nil => exact .error _
  case cons.cons =>
    apply (integer_agree lifted.1).bind
    intro first _ same
    subst same
    apply (integers_agree lifted.2).bind
    intro rest _ same
    subst same
    exact (Agree.refl _).bind fun _ _ same => .ok same
  all_goals exact lifted.elim

theorem car_agree [Callee φ] [Callee ψ] (lifted : Value.LiftItems related lefts rights) :
    Agree (Value.Lift related) (car.apply lefts) (car.apply rights) := by
  apply (singleList_agree lifted).bind
  intro items items' elements
  cases items <;> cases items'
  case nil.nil => exact .error _
  case cons.cons => exact .ok elements.1
  all_goals exact elements.elim

/-- A builtin function takes related arguments to related results, or fails on both alike. -/
theorem apply_agree [Callee φ] [Callee ψ] (identity : Value.KeepsIdentity related)
    (builtin : Builtin) (lifted : Value.LiftItems related lefts rights) :
    Agree (Value.Lift related) (builtin.apply lefts) (builtin.apply rights) := by
  cases builtin
  case add => exact add_agree lifted
  case sub => exact sub_agree lifted
  case mul | div =>
    apply (integerPair_agree lifted).bind
    intro arguments _ same
    subst same
    exact (Agree.refl _).bind fun _ _ same => .ok same
  case equal | eq =>
    exact (pair_agree lifted).bind fun _ _ arguments =>
      .ok (Value.Lift.equal_eq identity arguments.1 arguments.2)
  case notEqual =>
    exact (pair_agree lifted).bind fun _ _ arguments =>
      .ok (congrArg not (Value.Lift.equal_eq identity arguments.1 arguments.2))
  case ampersand | conj =>
    refine (pair_agree lifted).bind fun first second arguments => .ok ?_
    simp only [both, arguments.1.truthy_eq]
    split
    · exact arguments.2
    · exact arguments.1
  case disj =>
    refine (pair_agree lifted).bind fun first second arguments => .ok ?_
    simp only [either, arguments.1.truthy_eq]
    split
    · exact arguments.1
    · exact arguments.2
  case neg =>
    exact (single_agree lifted).bind fun _ _ argument => .ok (congrArg not argument.truthy_eq)
  case less | greater | lessEqual | greaterEqual =>
    simp only [apply]
    exact compare_agree _ lifted
  case car => exact car_agree lifted
  case cdr =>
    refine (singleList_agree lifted).bind fun items items' elements => .ok ?_
    cases items <;> cases items'
    case nil.nil => exact trivial
    case cons.cons => exact elements.2
    all_goals exact elements.elim
  case cons =>
    apply (pair_agree lifted).bind
    intro _ _ arguments
    exact (items_agree arguments.2).bind fun _ _ rest => .ok ⟨arguments.1, rest⟩
  case list => exact .ok lifted
  case length =>
    refine (singleList_agree lifted).bind fun items items' elements => .ok ?_
    exact congrArg Int64.ofNat (length_eq_of_liftItems elements)
  case isEmpty =>
    refine (singleList_agree lifted).bind fun items items' elements => .ok ?_
    cases items <;> cases items'
    case nil.nil | cons.cons => rfl
    all_goals exact elements.elim

end MiniLisp.Builtin
