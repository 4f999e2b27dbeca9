import MiniLisp.Proofs.Host.Ledger
import MiniLisp.Proofs.Value.Equality

/-!
# Equal values are interchangeable

Equality compares functions by their numbers, and all functions of a host are found in one ledger
under theirs.  So values that a host builds and that are equal are shown alike, and no builtin
function can tell them apart.
-/

namespace MiniLisp

/-- Values whose functions are listed are shown alike if they are equal. -/
theorem Ledger.render_eq_of_equal {ledger : Ledger} {left right : MiniLisp.Datum}
    (listed : ledger.Datum left) (listed' : ledger.Datum right)
    (alike : left.equal right = true) : left.render = right.render := by
  have lifted := (Value.equal_iff_lift.mp alike).and_every listed listed'
  refine lifted.render_eq fun one other holds => ?_
  exact holds.2.1.render_eq holds.2.2 holds.1

/-- Calls of a builtin function with equal arguments change nothing and come to equal values or to
the same fault. -/
theorem call_builtin_equal (operation : Builtin) {lefts rights : List Datum}
    (alike : List.Forall₂ (fun left right => left.equal right = true) lefts rights) (fuel : Nat)
    (machine : Machine) :
    (∃ left right, call fuel (.builtin operation) lefts machine = (.ok left, machine) ∧
      call fuel (.builtin operation) rights machine = (.ok right, machine) ∧
      left.equal right = true) ∨
    ∃ fault, call fuel (.builtin operation) lefts machine = (.error (.fault fault), machine) ∧
      call fuel (.builtin operation) rights machine = (.error (.fault fault), machine) := by
  have agree := operation.apply_equal Procedure.same_equivalence alike
  simp only [call, Eval.call, Eval.callBuiltin]
  generalize operation.apply lefts = one at agree
  generalize operation.apply rights = other at agree
  cases agree with
  | ok alike => exact .inl ⟨_, _, rfl, rfl, alike⟩
  | error cause => exact .inr ⟨_, rfl, rfl⟩

/-- Equality is a congruence wherever a host has come to.  It is an equivalence; values that the
host builds and that are equal have the same type and the same text and count as true alike; and a
builtin function that is called with equal arguments gives equal values or fails with the same
fault. -/
theorem equal_congruence {workspace : Workspace} (reachable : workspace.Reachable) :
    Equivalence (fun left right : Datum => left.equal right = true) ∧
    (∀ left right, workspace.Builds left → workspace.Builds right → left.equal right = true →
      left.type = right.type ∧ left.render = right.render ∧ left.truthy = right.truthy) ∧
    ∀ (operation : Builtin) (lefts rights : List Datum),
      List.Forall₂ (fun left right => left.equal right = true) lefts rights →
      ∀ fuel machine,
        (∃ left right, call fuel (.builtin operation) lefts machine = (.ok left, machine) ∧
          call fuel (.builtin operation) rights machine = (.ok right, machine) ∧
          left.equal right = true) ∨
        ∃ fault, call fuel (.builtin operation) lefts machine = (.error (.fault fault), machine) ∧
          call fuel (.builtin operation) rights machine = (.error (.fault fault), machine) := by
  have identity := Procedure.same_equivalence
  have equivalence : Equivalence (fun left right : Datum => left.equal right = true) :=
    ⟨Value.equal_refl identity, Value.equal_symm identity, Value.equal_trans identity⟩
  obtain ⟨ledger, spans⟩ := reachable.exists_ledger
  refine ⟨equivalence, ?_, ?_⟩
  · intro left right builds builds' alike
    have lifted := Value.equal_iff_lift.mp alike
    have shown := Ledger.render_eq_of_equal (spans.builds builds) (spans.builds builds') alike
    exact ⟨lifted.type_eq, shown, lifted.truthy_eq⟩
  · intro operation lefts rights alike fuel machine
    exact call_builtin_equal operation alike fuel machine

/-- A stored list of a closure, a function of the host and a builtin function is equal to a list
that is built once more from these functions, and both are shown alike. -/
theorem equal_congruence_shared_functions :
    let parts : List ValueSpec := [.stored "f", .stored "g", .builtin .add]
    let evaluated := (Workspace.evaluate (some "f") none none
      (.source "(lambda (x y) x)".toList) Workspace.empty).2
    let added := (Workspace.newHost (some "g") "run" .interpret evaluated).2
    let workspace := (Workspace.newValue (some "all") (.list parts) added).2
    workspace.Reachable ∧
      ∃ left right, Workspace.build workspace.values (.stored "all") = .ok left ∧
        Workspace.build workspace.values (.list parts) = .ok right ∧ left.equal right = true ∧
        left.type = right.type ∧ left.render = right.render ∧ left.truthy = right.truthy ∧
        left.render = "[<lambda (x y)> <function run> <function +>]" := by
  intro parts evaluated added workspace
  have reachable : workspace.Reachable := by
    have first : evaluated.Reachable :=
      .single (.evaluate (some "f") none none (.source "(lambda (x y) x)".toList))
    have second : added.Reachable := first.tail (.newHost (some "g") "run" .interpret trivial)
    exact second.tail (.newValue (some "all") (.list parts))
  let closure : Closure := ⟨0, ["x", "y"], .atom (some ⟨.atom, "x", ⟨1, 15⟩⟩) (.symbol "x"),
    some 0, some 0⟩
  let built : Datum := .list
    [.function (.closure closure), .function (.host 0 "run"), .function (.builtin .add)]
  have kept : Workspace.build workspace.values (.stored "all") = .ok built := rfl
  have again : Workspace.build workspace.values (.list parts) = .ok built := rfl
  obtain ⟨equivalence, alike, -⟩ := equal_congruence reachable
  have same := equivalence.refl built
  obtain ⟨types, shown, truths⟩ := alike built built ⟨_, kept⟩ ⟨_, again⟩ same
  exact ⟨reachable, built, built, kept, again, same, types, shown, truths, by decide⟩

end MiniLisp
