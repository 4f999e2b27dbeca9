import MiniLisp.Proofs.Semantics.Evaluator
import MiniLisp.Proofs.Value.BuiltinLifting

/-!
# Related chains

A relation between functions lifts to values, and so to the chains that bind them.  Calls and
blocks add a frame of related pairs to related chains, which leaves them related.
-/

namespace MiniLisp.Semantics

variable {related larger : Function → Function → Prop}

/-- Two chains are related if they bind the same names to related meanings. -/
def Chain.Lift (related : Function → Function → Prop) (chain chain' : Chain) : Prop :=
  ∀ name, Option.Rel (Value.Lift related) (chain.value? name) (chain'.value? name)

/-- Two pairs are related if their names are the same and their meanings are related. -/
def PairLift (related : Function → Function → Prop) (left right : String × Meaning) : Prop :=
  left.1 = right.1 ∧ Value.Lift related left.2 right.2

theorem PairLift.zip {arguments arguments' : List Meaning}
    (paired : List.Forall₂ (Value.Lift related) arguments arguments') (params : List String) :
    List.Forall₂ (PairLift related) (params.zip arguments) (params.zip arguments') := by
  induction paired generalizing params with
  | nil => simp
  | cons holds _ ih =>
    cases params with
    | nil => exact .nil
    | cons name params => exact .cons ⟨rfl, holds⟩ (ih params)

namespace Chain.Lift

variable {chain chain' : Chain}

/-- A larger relation relates more chains. -/
theorem mono (included : ∀ left right, related left right → larger left right)
    (lifted : Chain.Lift related chain chain') : Chain.Lift larger chain chain' := by
  intro name
  have resolved := lifted name
  generalize chain.value? name = found, chain'.value? name = found' at resolved ⊢
  cases resolved with
  | some holds => exact .some (holds.mono included)
  | none => exact .none

theorem nil : Chain.Lift related [] [] :=
  fun _ => .none

theorem cons (lifted : Chain.Lift related chain chain') {frame frame' : Frame}
    (paired : List.Forall₂ (PairLift related) frame frame') :
    Chain.Lift related (frame :: chain) (frame' :: chain') := by
  intro name
  induction paired with
  | nil => exact lifted name
  | @cons pair pair' frame frame' sameHead sameRest ih =>
    obtain ⟨bound, value⟩ := pair
    obtain ⟨bound', value'⟩ := pair'
    obtain ⟨rfl, holds⟩ : bound = bound' ∧ Value.Lift related value value' := sameHead
    simp only [value?, List.findSome?_cons, List.lookup_cons] at ih ⊢
    by_cases same : name = bound
    · rw [beq_iff_eq.mpr same]
      exact .some holds
    · rw [beq_false_of_ne same]
      exact ih

theorem root (builtins : ∀ operation, related (.builtin operation) (.builtin operation)) :
    Chain.Lift related Chain.root Chain.root := by
  apply nil.cons
  rw [List.forall₂_map_left_iff, List.forall₂_map_right_iff, List.forall₂_same]
  intro operation _
  exact ⟨rfl, builtins operation⟩

end Chain.Lift

end MiniLisp.Semantics
