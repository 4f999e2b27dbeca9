import MiniLisp.Proofs.Form.Free

/-!
# Identifiers that are looked up

What the evaluation of a form may ask of its surroundings.  Only free identifiers are looked up, and
not all of them: a special form without its shape fails before it evaluates most of its parts.  The
reserved words that stand at the heads of lists are never looked up.
-/

namespace MiniLisp.Form

open Semantics

/-- The evaluation of a form may look a name up in the surroundings of the form. -/
inductive Reads : Form → String → Prop where
  | symbol {token : Option Token} {name : String} : Reads (.atom token (.symbol name)) name
  | element {token : Option Token} {label : Option Nat} {items : List Form} {item : Form}
      {name : String} (ordinary : Ordinary items) (among : item ∈ items)
      (inside : Reads item name) : Reads (.list token label items) name
  /-- The expressions of a `define` are evaluated one after the other, until one of its bindings
  does not have its shape. -/
  | binding {token token' : Option Token} {label label' : Option Nat}
      {head body binding expression : Form} {bindings : List Form} {bound name : String}
      (reserved : Reserves .define head) (among : binding ∈ bindings)
      (binds : Binds binding bound expression) (inside : Reads expression name) :
      Reads (.list token label [head, .list token' label' bindings, body]) name
  | define {token token' : Option Token} {label label' : Option Nat} {head body : Form}
      {bindings : List Form} {pairs : List (String × Form)} {name : String}
      (reserved : Reserves .define head) (shaped : bindings.mapM Eval.binding? = some pairs)
      (unbound : name ∉ pairs.map Prod.fst) (inside : Reads body name) :
      Reads (.list token label [head, .list token' label' bindings, body]) name
  | lambda {token token' : Option Token} {label label' : Option Nat} {head body : Form}
      {params : List Form} {names : List String} {name : String}
      (reserved : Reserves .lambda head) (named : params.mapM symbolName? = some names)
      (unbound : name ∉ names) (inside : Reads body name) :
      Reads (.list token label [head, .list token' label' params, body]) name
  | conditional {token : Option Token} {label : Option Nat}
      {head condition consequent alternative operand : Form} {name : String}
      (reserved : Reserves .conditional head)
      (among : operand ∈ [condition, consequent, alternative]) (inside : Reads operand name) :
      Reads (.list token label [head, condition, consequent, alternative]) name
  | quote {token : Option Token} {label : Option Nat} {head expression : Form} {name : String}
      (reserved : Reserves .quote head) (inside : Reads expression name) :
      Reads (.list token label [head, expression]) name

variable {form : Form} {name : String}

/-- Only free identifiers are looked up. -/
theorem Reads.mem_free (reads : form.Reads name) : name ∈ form.free := by
  induction reads with
  | symbol => exact List.mem_cons_self
  | element ordinary among _ ih =>
    rw [free_ordinary ordinary]
    exact mem_freeIn_iff.mpr ⟨_, among, ih⟩
  | binding reserved among binds _ ih => exact mem_free_binding reserved among binds ih
  | define reserved shaped unbound _ ih =>
    exact (mem_free_define reserved shaped ih).resolve_left unbound
  | lambda reserved named unbound _ ih =>
    exact (mem_free_lambda reserved named ih).resolve_left unbound
  | conditional reserved among _ ih => exact mem_free_conditional reserved among ih
  | quote reserved _ ih =>
    rw [free_quote reserved]
    exact ih

/-! ## Heads of lists -/

mutual

/-- The symbols of a form that stand elsewhere than at the head of a list. -/
def mentions : Form → List String
  | absent => []
  | atom _ value => value.symbols
  | list _ _ items => mentionsBehind items

/-- The symbols in the elements of a list, the head apart if it is a symbol. -/
def mentionsBehind : List Form → List String
  | [] => []
  | head :: rest => (if head.symbolName? = none then mentions head else []) ++ mentionsIn rest

/-- The symbols that several forms mention. -/
def mentionsIn : List Form → List String
  | [] => []
  | first :: rest => mentions first ++ mentionsIn rest

end

section Mentions

variable {token : Option Token} {label : Option Nat} {head item : Form} {rest items : List Form}

theorem mem_mentionsIn (among : item ∈ items) (inside : name ∈ item.mentions) :
    name ∈ mentionsIn items := by
  induction items with
  | nil => cases among
  | cons first rest ih =>
    rw [mentionsIn, List.mem_append]
    rcases List.mem_cons.mp among with rfl | among
    · exact .inl inside
    · exact .inr (ih among)

theorem mem_mentions_operand (among : item ∈ rest) (inside : name ∈ item.mentions) :
    name ∈ mentions (.list token label (head :: rest)) := by
  rw [mentions, mentionsBehind]
  exact List.mem_append_right _ (mem_mentionsIn among inside)

/-- An element that is no symbol mentions its names for the list, even if it is the head. -/
theorem mem_mentions_compound (compound : item.symbolName? = none) (among : item ∈ items)
    (inside : name ∈ item.mentions) : name ∈ mentions (.list token label items) := by
  cases items with
  | nil => cases among
  | cons head rest =>
    rcases List.mem_cons.mp among with rfl | among
    · rw [mentions, mentionsBehind, if_pos compound]
      exact List.mem_append_left _ inside
    · exact mem_mentions_operand among inside

end Mentions

/-- A reserved word is looked up only where it stands elsewhere than at the head of a list. -/
theorem Reads.mem_mentions {special : SpecialForm} (reads : form.Reads name)
    (reserves : name = special.name) : name ∈ form.mentions := by
  induction reads with
  | symbol => exact List.mem_cons_self
  | @element _ _ items item _ ordinary among inside ih =>
    cases items with
    | nil => cases among
    | cons head rest =>
      rcases List.mem_cons.mp among with rfl | among
      · -- The head of an ordinary list may be a symbol, but then no reserved one.
        cases named : item.symbolName? with
        | none => exact mem_mentions_compound named List.mem_cons_self (ih reserves)
        | some found =>
          cases inside with
          | symbol => exact absurd (congrArg some reserves) (ordinary _ rest special rfl)
          | element | binding | define | lambda | conditional | quote => cases named
      · exact mem_mentions_operand among (ih reserves)
  | binding _ among binds _ ih =>
    obtain ⟨token, label, symbol, rfl, -⟩ := binds
    apply mem_mentions_operand List.mem_cons_self
    apply mem_mentions_compound rfl among
    exact mem_mentions_operand List.mem_cons_self (ih reserves)
  | define _ _ _ _ ih | lambda _ _ _ _ ih =>
    exact mem_mentions_operand (List.mem_cons_of_mem _ List.mem_cons_self) (ih reserves)
  | conditional _ among _ ih => exact mem_mentions_operand among (ih reserves)
  | quote _ _ ih => exact mem_mentions_operand List.mem_cons_self (ih reserves)

end MiniLisp.Form
