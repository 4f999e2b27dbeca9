import Mathlib.Data.List.Forall2
import MiniLisp.Builtin

/-!
# Related values

A relation between two representations of functions lifts to the values over them.  Values never
look inside a function, so related values print alike, count as true alike and are taken by every
builtin function to related results or to the same fault.
-/

namespace MiniLisp

variable {φ ψ : Type}

namespace Value

mutual

/-- Two values are related if they differ in their functions alone, and these are related. -/
def Lift (related : φ → ψ → Prop) : Value φ → Value ψ → Prop
  | nil, nil => True
  | int left, int right => left = right
  | text left, text right => left = right
  | bool left, bool right => left = right
  | list left, list right => LiftItems related left right
  | function left, function right => related left right
  | _, _ => False

/-- Relatedness of lists, element by element. -/
def LiftItems (related : φ → ψ → Prop) : List (Value φ) → List (Value ψ) → Prop
  | [], [] => True
  | left :: lefts, right :: rights => Lift related left right ∧ LiftItems related lefts rights
  | _, _ => False

end

variable {related : φ → ψ → Prop}

theorem liftItems_iff_forall₂ {lefts : List (Value φ)} {rights : List (Value ψ)} :
    LiftItems related lefts rights ↔ List.Forall₂ (Lift related) lefts rights := by
  induction lefts generalizing rights with
  | nil => cases rights <;> simp [LiftItems]
  | cons left lefts ih =>
    cases rights with
    | nil => simp [LiftItems]
    | cons right rights => simp [LiftItems, ih]

/-- Related values have the same type. -/
theorem Lift.type_eq {left : Value φ} {right : Value ψ} (lifted : Lift related left right) :
    left.type = right.type := by
  cases left <;> cases right <;> first | rfl | exact lifted.elim

/-- Related values count as true alike. -/
theorem Lift.truthy_eq {left : Value φ} {right : Value ψ} (lifted : Lift related left right) :
    left.truthy = right.truthy := by
  cases left <;> cases right <;> simp only [Lift] at lifted
  case nil.nil => rfl
  case int.int => rw [lifted]; rfl
  case text.text => rw [lifted]; rfl
  case bool.bool => rw [lifted]; rfl
  case list.list lefts rights =>
    have items := liftItems_iff_forall₂.mp lifted
    cases items <;> rfl
  case function.function => rfl

mutual

/-- A larger relation relates more values. -/
theorem Lift.mono {larger : φ → ψ → Prop}
    (included : ∀ left right, related left right → larger left right) :
    {left : Value φ} → {right : Value ψ} →
      Lift related left right → Lift larger left right := by
  intro left right lifted
  cases left <;> cases right <;> simp only [Lift] at lifted ⊢
  case int.int => exact lifted
  case text.text => exact lifted
  case bool.bool => exact lifted
  case list.list => exact LiftItems.mono included lifted
  case function.function => exact included _ _ lifted

theorem LiftItems.mono {larger : φ → ψ → Prop}
    (included : ∀ left right, related left right → larger left right) :
    {lefts : List (Value φ)} → {rights : List (Value ψ)} →
      LiftItems related lefts rights → LiftItems larger lefts rights := by
  intro lefts rights lifted
  cases lefts <;> cases rights <;> simp only [LiftItems] at lifted ⊢
  exact ⟨Lift.mono included lifted.1, LiftItems.mono included lifted.2⟩

end

section Printing

variable [Callee φ] [Callee ψ]

mutual

/-- Related values print alike, provided that related functions do. -/
theorem Lift.render_eq
    (alike : ∀ left right, related left right → Callee.render left = Callee.render right) :
    {left : Value φ} → {right : Value ψ} →
      Lift related left right → left.render = right.render := by
  intro left right lifted
  cases left <;> cases right <;> simp only [Lift] at lifted
  case nil.nil => rfl
  case int.int => rw [lifted]; rfl
  case text.text => rw [lifted]; rfl
  case bool.bool left _ => subst lifted; cases left <;> rfl
  case list.list => simp only [render]; rw [LiftItems.renderItems_eq alike lifted]
  case function.function => exact alike _ _ lifted

theorem LiftItems.renderItems_eq
    (alike : ∀ left right, related left right → Callee.render left = Callee.render right) :
    {lefts : List (Value φ)} → {rights : List (Value ψ)} →
      LiftItems related lefts rights → renderItems lefts = renderItems rights := by
  intro lefts rights lifted
  cases lefts <;> cases rights <;> simp only [LiftItems] at lifted
  case nil.nil => rfl
  case cons.cons =>
    simp only [renderItems]
    rw [Lift.render_eq alike lifted.1, LiftItems.renderItems_eq alike lifted.2]

end

end Printing

section Equality

variable [Callee φ] [Callee ψ]

/-- A relation that keeps functions apart exactly where they are apart on the other side. -/
def KeepsIdentity (related : φ → ψ → Prop) : Prop :=
  ∀ {left left' : φ} {right right' : ψ}, related left right → related left' right' →
    Callee.same left left' = Callee.same right right'

mutual

/-- Related values are equal to related values alike. -/
theorem Lift.equal_eq (identity : KeepsIdentity related) :
    {left left' : Value φ} → {right right' : Value ψ} → Lift related left right →
      Lift related left' right' → left.equal left' = right.equal right' := by
  intro left left' right right' lifted lifted'
  cases left <;> cases right <;> simp only [Lift] at lifted <;>
    cases left' <;> cases right' <;> simp only [Lift] at lifted'
  case list.list.list.list => exact LiftItems.equalItems_eq identity lifted lifted'
  case function.function.function.function => exact identity lifted lifted'
  case int.int.int.int => subst lifted lifted'; rfl
  case text.text.text.text => subst lifted lifted'; rfl
  case bool.bool.bool.bool => subst lifted lifted'; rfl
  all_goals rfl

theorem LiftItems.equalItems_eq (identity : KeepsIdentity related) :
    {lefts lefts' : List (Value φ)} → {rights rights' : List (Value ψ)} →
      LiftItems related lefts rights → LiftItems related lefts' rights' →
      equalItems lefts lefts' = equalItems rights rights' := by
  intro lefts lefts' rights rights' lifted lifted'
  cases lefts <;> cases rights <;> simp only [LiftItems] at lifted <;>
    cases lefts' <;> cases rights' <;> simp only [LiftItems] at lifted'
  case cons.cons.cons.cons =>
    simp only [equalItems]
    rw [Lift.equal_eq identity lifted.1 lifted'.1,
      LiftItems.equalItems_eq identity lifted.2 lifted'.2]
  all_goals rfl

end

end Equality

end Value

end MiniLisp
