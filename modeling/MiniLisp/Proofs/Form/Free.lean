import MiniLisp.Proofs.Semantics.Evaluator

/-!
# Free identifiers

The identifiers that a form leaves to its surroundings, read off its text: `lambda` and `define`
bind names in their bodies, and all else passes on what its parts leave open.  A special form that
does not have its shape binds nothing, so every symbol in it counts.
-/

namespace MiniLisp

/-- The symbols in an atom. -/
def Atom.symbols : Atom → List String
  | symbol name => [name]
  | int _ | string _ => []

namespace Form

mutual

/-- All symbols in a form. -/
def symbols : Form → List String
  | absent => []
  | atom _ value => value.symbols
  | list _ _ items => symbolsIn items

/-- All symbols in several forms. -/
def symbolsIn : List Form → List String
  | [] => []
  | first :: rest => symbols first ++ symbolsIn rest

end

mutual

/-- The free identifiers of a form. -/
def free : Form → List String
  | absent => []
  | atom _ value => value.symbols
  | list _ _ items =>
    match Eval.special? items with
    | some special => freeSpecial special items
    | none => freeIn items

/-- The free identifiers of several forms. -/
def freeIn : List Form → List String
  | [] => []
  | first :: rest => free first ++ freeIn rest

/-- The free identifiers of a special form, whose head is no reference. -/
def freeSpecial : SpecialForm → List Form → List String
  | .define, [_, .list _ _ bindings, body] =>
    match bindings.mapM Eval.binding? with
    | some pairs => freeExpressions bindings ++ (free body).filter (· ∉ pairs.map Prod.fst)
    | none => symbolsIn bindings ++ symbols body
  | .lambda, [_, .list _ _ params, body] =>
    match params.mapM symbolName? with
    | some names => (free body).filter (· ∉ names)
    | none => symbolsIn params ++ symbols body
  | .conditional, [_, condition, consequent, alternative] =>
    free condition ++ (free consequent ++ free alternative)
  | .quote, [_, expression] => free expression
  | _, items => symbolsIn items.tail

/-- The free identifiers of the expressions in the bindings of a `define`. -/
def freeExpressions : List Form → List String
  | [] => []
  | first :: rest => freeExpression first ++ freeExpressions rest

/-- The free identifiers of the expression in a binding. -/
def freeExpression : Form → List String
  | .list _ _ [_, expression] => free expression
  | _ => []

end

section Symbols

variable {name : String} {items : List Form}

theorem mem_symbolsIn_iff : name ∈ symbolsIn items ↔ ∃ item ∈ items, name ∈ item.symbols := by
  induction items with
  | nil => simp [symbolsIn]
  | cons first rest ih => simp [symbolsIn, ih]

theorem mem_freeIn_iff : name ∈ freeIn items ↔ ∃ item ∈ items, name ∈ item.free := by
  induction items with
  | nil => simp [freeIn]
  | cons first rest ih => simp [freeIn, ih]

theorem mem_freeExpressions_iff :
    name ∈ freeExpressions items ↔ ∃ binding ∈ items, name ∈ freeExpression binding := by
  induction items with
  | nil => simp [freeExpressions]
  | cons first rest ih => simp [freeExpressions, ih]

theorem mem_freeExpression_iff {binding : Form} :
    name ∈ freeExpression binding ↔ ∃ token label head expression,
      binding = .list token label [head, expression] ∧ name ∈ expression.free := by
  constructor
  · intro member
    rw [freeExpression.eq_def] at member
    split at member
    next token label head expression => exact ⟨token, label, head, expression, rfl, member⟩
    next => cases member
  · rintro ⟨token, label, head, expression, rfl, member⟩
    rwa [freeExpression]

theorem mem_symbolsIn_of_mem_freeExpressions
    (each : ∀ part : Form, sizeOf part < sizeOf items → name ∈ part.free → name ∈ part.symbols)
    (member : name ∈ freeExpressions items) : name ∈ symbolsIn items := by
  obtain ⟨binding, among, member⟩ := mem_freeExpressions_iff.mp member
  obtain ⟨token, label, head, expression, rfl, inside⟩ := mem_freeExpression_iff.mp member
  have smaller : sizeOf expression < sizeOf items := by
    have enclosed := List.sizeOf_lt_of_mem among
    simp only [list.sizeOf_spec, List.cons.sizeOf_spec] at enclosed
    omega
  refine mem_symbolsIn_iff.mpr ⟨_, among, ?_⟩
  simp only [symbols, symbolsIn, List.append_nil, List.mem_append]
  exact .inr (each expression smaller inside)

theorem mem_symbolsIn_of_mem_freeSpecial {special : SpecialForm}
    (each : ∀ part : Form, sizeOf part < sizeOf items → name ∈ part.free → name ∈ part.symbols)
    (member : name ∈ freeSpecial special items) : name ∈ symbolsIn items := by
  rw [freeSpecial.eq_def] at member
  split at member
  next head token label bindings body =>
    simp only [symbolsIn, symbols, List.append_nil, List.mem_append]
    split at member
    · rw [List.mem_append, List.mem_filter] at member
      refine .inr (member.imp ?_ ?_)
      · apply mem_symbolsIn_of_mem_freeExpressions
        intro part smaller
        apply each
        simp only [list.sizeOf_spec, List.cons.sizeOf_spec]
        omega
      · exact fun inside => each body (List.sizeOf_lt_of_mem (by simp)) inside.1
    · exact .inr (List.mem_append.mp member)
  next head token label params body =>
    simp only [symbolsIn, symbols, List.append_nil, List.mem_append]
    split at member
    · exact .inr (.inr (each body (List.sizeOf_lt_of_mem (by simp)) (List.mem_filter.mp member).1))
    · exact .inr (List.mem_append.mp member)
  next head condition consequent alternative =>
    simp only [symbolsIn, List.append_nil, List.mem_append] at member ⊢
    refine .inr (member.imp ?_ (.imp ?_ ?_))
    · exact each condition (List.sizeOf_lt_of_mem (by simp))
    · exact each consequent (List.sizeOf_lt_of_mem (by simp))
    · exact each alternative (List.sizeOf_lt_of_mem (by simp))
  next head expression =>
    simp only [symbolsIn, List.append_nil, List.mem_append]
    exact .inr (each expression (List.sizeOf_lt_of_mem (by simp)) member)
  next =>
    obtain ⟨item, operand, occurs⟩ := mem_symbolsIn_iff.mp member
    exact mem_symbolsIn_iff.mpr ⟨item, List.mem_of_mem_tail operand, occurs⟩

/-- Only symbols of a form are free in it. -/
theorem mem_symbols_of_mem_free (form : Form) (member : name ∈ form.free) :
    name ∈ form.symbols := by
  cases form with
  | absent => exact member
  | atom token value => exact member
  | list token label items =>
    have each : ∀ part : Form, sizeOf part < sizeOf items → name ∈ part.free →
        name ∈ part.symbols := fun part _ => mem_symbols_of_mem_free part
    rw [symbols]
    cases found : Eval.special? items with
    | none =>
      simp only [free, found] at member
      obtain ⟨item, among, inside⟩ := mem_freeIn_iff.mp member
      exact mem_symbolsIn_iff.mpr ⟨item, among, each item (List.sizeOf_lt_of_mem among) inside⟩
    | some special =>
      simp only [free, found] at member
      exact mem_symbolsIn_of_mem_freeSpecial each member
termination_by sizeOf form
decreasing_by
  subst_vars
  simp only [list.sizeOf_spec]
  omega

end Symbols

/-! ## The parts of a form -/

section Parts

variable {token token' : Option Token} {label label' : Option Nat} {head body : Form}
variable {items : List Form} {name : String}

theorem free_ordinary (ordinary : Semantics.Ordinary items) :
    free (.list token label items) = freeIn items := by
  rw [free, Semantics.special?_eq_none_iff.mpr ordinary]

theorem free_reserved {special : SpecialForm} (reserved : Semantics.Reserves special head) :
    free (.list token label (head :: items)) = freeSpecial special (head :: items) := by
  rw [free, Semantics.special?_cons_eq_some_iff.mpr reserved]

theorem free_quote {expression : Form} (reserved : Semantics.Reserves .quote head) :
    free (.list token label [head, expression]) = expression.free := by
  rw [free_reserved reserved, freeSpecial]

theorem mem_free_conditional {condition consequent alternative operand : Form}
    (reserved : Semantics.Reserves .conditional head)
    (among : operand ∈ [condition, consequent, alternative]) (inside : name ∈ operand.free) :
    name ∈ free (.list token label [head, condition, consequent, alternative]) := by
  rw [free_reserved reserved, freeSpecial]
  simp only [List.mem_cons, List.not_mem_nil, or_false] at among
  rcases among with rfl | rfl | rfl <;> simp [inside]

theorem mem_free_lambda {params : List Form} {names : List String}
    (reserved : Semantics.Reserves .lambda head) (named : params.mapM symbolName? = some names)
    (member : name ∈ body.free) :
    name ∈ names ∨
      name ∈ free (.list token label [head, .list token' label' params, body]) := by
  simp only [free_reserved reserved, freeSpecial, named, List.mem_filter]
  by_cases bound : name ∈ names
  · exact .inl bound
  · exact .inr ⟨member, decide_eq_true bound⟩

theorem mem_free_define {bindings : List Form} {pairs : List (String × Form)}
    (reserved : Semantics.Reserves .define head)
    (shaped : bindings.mapM Eval.binding? = some pairs) (member : name ∈ body.free) :
    name ∈ pairs.map Prod.fst ∨
      name ∈ free (.list token label [head, .list token' label' bindings, body]) := by
  simp only [free_reserved reserved, freeSpecial, shaped, List.mem_append, List.mem_filter]
  by_cases bound : name ∈ pairs.map Prod.fst
  · exact .inl bound
  · exact .inr (.inr ⟨member, decide_eq_true bound⟩)

/-- The expression of a binding is a part of the `define`, whatever the other bindings are. -/
theorem mem_free_binding {bindings : List Form} {binding expression : Form} {bound : String}
    (reserved : Semantics.Reserves .define head)
    (member : binding ∈ bindings) (binds : Semantics.Binds binding bound expression)
    (inside : name ∈ expression.free) :
    name ∈ free (.list token label [head, .list token' label' bindings, body]) := by
  have among : name ∈ freeExpressions bindings := by
    obtain ⟨token, label, symbol, rfl, -⟩ := binds
    have part := mem_freeExpression_iff.mpr ⟨token, label, symbol, expression, rfl, inside⟩
    exact mem_freeExpressions_iff.mpr ⟨_, member, part⟩
  simp only [free_reserved reserved, freeSpecial]
  split
  · exact List.mem_append_left _ among
  · exact List.mem_append_left _
      (mem_symbolsIn_of_mem_freeExpressions (fun part _ => mem_symbols_of_mem_free part) among)

end Parts

end Form

end MiniLisp
