import MiniLisp.Proofs.Value.BuiltinLifting
import MiniLisp.Scope

/-!
# The functions in a value

A property of functions extends to the values that hold only such functions.  Builtin functions
make no functions of their own, so what all arguments have, the result has.
-/

namespace MiniLisp

variable {φ : Type} {property : φ → Prop}

namespace Value

/-- Every function in a value has a property. -/
def Every (property : φ → Prop) (value : Value φ) : Prop :=
  Lift (fun left right => left = right ∧ property left) value value

theorem Every.mono {larger : φ → Prop} (included : ∀ callee, property callee → larger callee)
    {value : Value φ} (every : value.Every property) : value.Every larger :=
  Lift.mono (fun left _ holds => ⟨holds.1, included left holds.2⟩) every

theorem every_nil : (nil : Value φ).Every property := trivial

theorem every_int (value : Int64) : (int value : Value φ).Every property := rfl

theorem every_text (value : String) : (text value : Value φ).Every property := rfl

theorem every_function_iff {callee : φ} : (function callee).Every property ↔ property callee :=
  ⟨fun every => every.2, fun holds => ⟨rfl, holds⟩⟩

theorem liftItems_self_iff {items : List (Value φ)} :
    LiftItems (fun left right => left = right ∧ property left) items items ↔
      ∀ item ∈ items, item.Every property := by
  rw [liftItems_iff_forall₂, List.forall₂_same]
  rfl

theorem every_list_iff {items : List (Value φ)} :
    (list items).Every property ↔ ∀ item ∈ items, item.Every property :=
  liftItems_self_iff

/-- A function occurs in a value. -/
inductive Holds : Value φ → φ → Prop where
  | function {callee : φ} : Holds (function callee) callee
  | list {items : List (Value φ)} {item : Value φ} {callee : φ} (member : item ∈ items)
      (inside : Holds item callee) : Holds (list items) callee

theorem Every.of_holds {value : Value φ} {callee : φ} (every : value.Every property)
    (holds : value.Holds callee) : property callee := by
  induction holds with
  | function => exact every_function_iff.mp every
  | list member _ ih => exact ih (every_list_iff.mp every _ member)

mutual

/-- A property of the functions that occur in a value is one of every function in it. -/
theorem every_of_holds : (value : Value φ) →
    (∀ callee, value.Holds callee → property callee) → value.Every property
  | .nil, _ => trivial
  | .int _, _ => rfl
  | .text _, _ => rfl
  | .bool _, _ => rfl
  | .list items, all =>
    every_list_iff.mpr (every_mem_of_holds items fun _ member callee inside =>
      all callee (.list member inside))
  | .function callee, all => every_function_iff.mpr (all callee .function)

theorem every_mem_of_holds : (items : List (Value φ)) →
    (∀ item ∈ items, ∀ callee, item.Holds callee → property callee) →
      ∀ item ∈ items, item.Every property
  | [], _ => nofun
  | first :: rest, all =>
    List.forall_mem_cons.mpr
      ⟨every_of_holds first (all first List.mem_cons_self),
        every_mem_of_holds rest fun item member => all item (List.mem_cons_of_mem _ member)⟩

end

/-- What all functions have, those in a value have. -/
theorem every_of_forall (holds : ∀ callee, property callee) (value : Value φ) :
    value.Every property :=
  every_of_holds value fun callee _ => holds callee

end Value

/-- What all functions in the arguments of a builtin function have, those in its result have. -/
theorem Builtin.apply_every [Callee φ] {builtin : Builtin} {arguments : List (Value φ)}
    {value : Value φ} (every : ∀ argument ∈ arguments, argument.Every property)
    (applied : builtin.apply arguments = .ok value) : value.Every property := by
  have identity : Value.KeepsIdentity fun left right : φ => left = right ∧ property left := by
    intro left left' right right' same same'
    rw [same.1, same'.1]
  have agree := builtin.apply_agree identity (Value.liftItems_self_iff.mpr every)
  rw [applied] at agree
  cases agree with
  | ok holds => exact holds

namespace Bindings

variable {property : Procedure → Prop} {bindings : Bindings}

/-- Every function that some bindings hold has a property. -/
def Every (property : Procedure → Prop) (bindings : Bindings) : Prop :=
  ∀ pair ∈ bindings, pair.2.Every property

theorem every_nil : Every property [] := nofun

theorem Every.mono {larger : Procedure → Prop}
    (included : ∀ callee, property callee → larger callee) (every : bindings.Every property) :
    bindings.Every larger :=
  fun pair member => (every pair member).mono included

theorem Every.bind (every : bindings.Every property) (name : String) {value : Datum}
    (holds : value.Every property) : (bindings.bind name value).Every property := by
  induction bindings with
  | nil =>
    intro pair member
    rw [List.mem_singleton.mp member]
    exact holds
  | cons head rest ih =>
    have first := every head List.mem_cons_self
    have others := ih fun pair member => every pair (List.mem_cons_of_mem _ member)
    intro pair member
    simp only [Bindings.bind] at member
    split at member
    · rcases List.mem_cons.mp member with rfl | member
      · exact holds
      · exact every pair (List.mem_cons_of_mem _ member)
    · rcases List.mem_cons.mp member with rfl | member
      · exact first
      · exact others pair member

theorem Every.bindAll (every : bindings.Every property) {pairs : List (String × Datum)}
    (hold : Bindings.Every property pairs) : (bindings.bindAll pairs).Every property := by
  induction pairs generalizing bindings with
  | nil => exact every
  | cons pair pairs ih =>
    apply ih (every.bind pair.1 (hold pair List.mem_cons_self))
    exact fun other member => hold other (List.mem_cons_of_mem _ member)

theorem Every.value? (every : bindings.Every property) {name : String} {value : Datum}
    (found : bindings.value? name = some value) : value.Every property := by
  induction bindings with
  | nil => cases found
  | cons head rest ih =>
    simp only [Bindings.value?] at found
    split at found
    · cases found
      exact every head List.mem_cons_self
    · exact ih (fun pair member => every pair (List.mem_cons_of_mem _ member)) found

/-- The bindings of a root scope hold builtin functions only. -/
theorem every_library (builtins : ∀ builtin, property (.builtin builtin)) :
    Every property library := by
  intro pair member
  obtain ⟨builtin, -, rfl⟩ := List.mem_map.mp member
  exact Value.every_function_iff.mpr (builtins builtin)

/-- Zipping names with values binds these values only. -/
theorem every_zip {arguments : List Datum} (names : List String)
    (every : ∀ argument ∈ arguments, argument.Every property) :
    Every property (names.zip arguments) :=
  fun pair member => every pair.2 (List.of_mem_zip member).2

end Bindings

end MiniLisp
