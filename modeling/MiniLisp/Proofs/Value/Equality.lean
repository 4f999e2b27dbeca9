import MiniLisp.Proofs.Value.Every

/-!
# Equality of values

Equality lifts the identity of functions to values.  Identity is an equivalence, so equality is one,
and since builtin functions only ever ask whether functions are the same, they cannot tell equal
arguments apart.
-/

namespace MiniLisp

/-- Identity of procedures is an equivalence. -/
theorem Procedure.same_equivalence :
    Equivalence fun left right : Procedure => left.same right = true where
  refl procedure := by cases procedure <;> simp [same]
  symm {left right} alike := by
    cases left <;> cases right <;> simp_all [same]
  trans {left middle right} first second := by
    cases left <;> cases middle <;> cases right <;> simp_all [same]

variable {φ : Type}

namespace Value

/-! ## Lifting an equivalence -/

section Lifting

variable {related : φ → φ → Prop}

theorem Lift.refl (identity : Equivalence related) (value : Value φ) :
    Lift related value value := by
  have every : value.Every fun _ => True := every_of_forall (fun _ => trivial) value
  exact Lift.mono (fun left _ same => same.1 ▸ identity.refl left) every

mutual

theorem Lift.symm (identity : Equivalence related) :
    {left right : Value φ} → Lift related left right → Lift related right left := by
  intro left right lifted
  cases left <;> cases right <;> simp only [Lift] at lifted ⊢
  case int.int => exact Eq.symm lifted
  case text.text => exact Eq.symm lifted
  case bool.bool => exact Eq.symm lifted
  case list.list => exact LiftItems.symm identity lifted
  case function.function => exact identity.symm lifted

theorem LiftItems.symm (identity : Equivalence related) :
    {lefts rights : List (Value φ)} → LiftItems related lefts rights →
      LiftItems related rights lefts := by
  intro lefts rights lifted
  cases lefts <;> cases rights <;> simp only [LiftItems] at lifted ⊢
  exact ⟨Lift.symm identity lifted.1, LiftItems.symm identity lifted.2⟩

end

section Composition

variable {ψ χ : Type} {first : φ → ψ → Prop} {second : ψ → χ → Prop} {whole : φ → χ → Prop}

mutual

/-- Values that are related one after the other are related by whatever relates their functions. -/
theorem Lift.trans
    (joined : ∀ left middle right, first left middle → second middle right → whole left right) :
    {left : Value φ} → {middle : Value ψ} → {right : Value χ} → Lift first left middle →
      Lift second middle right → Lift whole left right := by
  intro left middle right before after
  cases left <;> cases middle <;> simp only [Lift] at before <;>
    cases right <;> simp only [Lift] at after ⊢
  case int.int.int => exact Eq.trans before after
  case text.text.text => exact Eq.trans before after
  case bool.bool.bool => exact Eq.trans before after
  case list.list.list => exact LiftItems.trans joined before after
  case function.function.function => exact joined _ _ _ before after

theorem LiftItems.trans
    (joined : ∀ left middle right, first left middle → second middle right → whole left right) :
    {lefts : List (Value φ)} → {middles : List (Value ψ)} → {rights : List (Value χ)} →
      LiftItems first lefts middles → LiftItems second middles rights →
        LiftItems whole lefts rights := by
  intro lefts middles rights before after
  cases lefts <;> cases middles <;> simp only [LiftItems] at before <;>
    cases rights <;> simp only [LiftItems] at after ⊢
  exact ⟨Lift.trans joined before.1 after.1, LiftItems.trans joined before.2 after.2⟩

end

end Composition

/-- What all functions on both sides have, those that are related have. -/
theorem Lift.and_every {property : φ → Prop} {left right : Value φ}
    (lifted : Lift related left right) (every : left.Every property)
    (every' : right.Every property) :
    Lift (fun one other => related one other ∧ property one ∧ property other) left right := by
  -- A value whose functions have the property is related to itself, and can stand on either side.
  have before : Lift (fun one other => related one other ∧ property one) left right :=
    Lift.trans (fun _ _ _ same holds => ⟨same.1 ▸ holds, same.2⟩) every lifted
  exact Lift.trans (fun _ _ _ holds same => ⟨same.1 ▸ holds.1, holds.2, same.1 ▸ same.2⟩) before
    every'

end Lifting

/-! ## Equality as a lifting -/

section Equality

variable [Callee φ]

/-- Functions are one and the same. -/
def Identical (left right : φ) : Prop :=
  Callee.same left right = true

mutual

/-- Values are equal exactly if they differ at most in functions that are the same. -/
theorem equal_iff_lift : {left right : Value φ} →
    (left.equal right = true ↔ Lift Identical left right) := by
  intro left right
  cases left <;> cases right <;> simp only [equal, Lift, beq_iff_eq, reduceCtorEq]
  case list.list => exact equalItems_iff_liftItems
  case function.function => rfl

theorem equalItems_iff_liftItems : {lefts rights : List (Value φ)} →
    (equalItems lefts rights = true ↔ LiftItems Identical lefts rights) := by
  intro lefts rights
  cases lefts <;> cases rights <;> simp only [equalItems, LiftItems, Bool.and_eq_true, reduceCtorEq]
  rw [equal_iff_lift, equalItems_iff_liftItems]

end

variable (identity : Equivalence (Identical : φ → φ → Prop))
include identity

theorem equal_refl (value : Value φ) : value.equal value = true :=
  equal_iff_lift.mpr (.refl identity value)

theorem equal_symm {left right : Value φ} (alike : left.equal right = true) :
    right.equal left = true :=
  equal_iff_lift.mpr (.symm identity (equal_iff_lift.mp alike))

theorem equal_trans {left middle right : Value φ} (first : left.equal middle = true)
    (second : middle.equal right = true) : left.equal right = true := by
  apply equal_iff_lift.mpr
  refine Lift.trans ?_ (equal_iff_lift.mp first) (equal_iff_lift.mp second)
  exact fun _ _ _ => identity.trans

/-- Functions that are the same are the same as the same functions. -/
theorem keepsIdentity_identical : KeepsIdentity (Identical : φ → φ → Prop) := by
  intro left left' right right' alike alike'
  rw [Bool.eq_iff_iff]
  constructor
  · exact fun same => identity.trans (identity.symm alike) (identity.trans same alike')
  · exact fun same => identity.trans alike (identity.trans same (identity.symm alike'))

end Equality

end Value

/-- A builtin function takes equal arguments to equal results, or fails on both alike. -/
theorem Builtin.apply_equal [Callee φ] (identity : Equivalence (Value.Identical : φ → φ → Prop))
    (builtin : Builtin) {lefts rights : List (Value φ)}
    (alike : List.Forall₂ (fun left right => left.equal right = true) lefts rights) :
    Agree (fun left right => left.equal right = true) (builtin.apply lefts)
      (builtin.apply rights) := by
  simp only [Value.equal_iff_lift] at alike ⊢
  exact builtin.apply_agree (Value.keepsIdentity_identical identity)
    (Value.liftItems_iff_forall₂.mpr alike)

end MiniLisp
