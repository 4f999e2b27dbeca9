import MiniLisp.Builtin

/-!
# Values taken for what they are

What a value holds may be taken out as what its type says and as nothing else, and an element may be
taken from a list only if it is there.  Here the functions on values are written out with every such
step: each asks for the number of arguments, for a length or for a type before it takes anything
out.  All these questions suffice: no step is ever denied, and what the functions come to is what
they are defined to be.
-/

namespace MiniLisp.Access

variable {α β φ : Type}

/-- Something is taken for what it is not. -/
def denied : Except Stop α :=
  .error (.misuse .wrongAccess)

/-- The element of a list at an index. -/
def item (items : List α) (index : Nat) : Except Stop α :=
  match items[index]? with
  | some found => .ok found
  | none => denied

/-- The elements of a list from an index on. -/
def slice (items : List α) (index : Nat) : Except Stop (List α) :=
  if index ≤ items.length then .ok (items.drop index) else denied

/-- A value as an integer. -/
def int : Value φ → Except Stop Int64
  | .int value => .ok value
  | _ => denied

/-- A value as a text. -/
def text : Value φ → Except Stop String
  | .text value => .ok value
  | _ => denied

/-- A value as a truth value. -/
def bool : Value φ → Except Stop Bool
  | .bool value => .ok value
  | _ => denied

/-- A value as a list. -/
def list : Value φ → Except Stop (List (Value φ))
  | .list items => .ok items
  | _ => denied

/-- A value as a function. -/
def function : Value φ → Except Stop φ
  | .function callee => .ok callee
  | _ => denied

theorem sizeOf_lt_of_list {value : Value φ} {items : List (Value φ)}
    (taken : list value = .ok items) : sizeOf items < sizeOf value := by
  cases value with
  | list =>
    cases taken
    decreasing_tactic
  | nil | int | text | bool | function => cases taken

/-! ## Truth, text and equality -/

/-- Whether a value counts as true, type by type. -/
def truthy (value : Value φ) : Except Stop Bool :=
  if value.type = .nil then .ok false
  else if value.type = .bool then bool value
  else if value.type = .int then return (← int value) != 0
  else if value.type = .text then return (← text value) != ""
  else if value.type = .list then return 0 < (← list value).length
  else if value.type = .function then .ok true
  else denied

mutual

/-- The text of a value, type by type. -/
def render [Callee φ] (value : Value φ) : Except Stop String :=
  if value.type = .function then return Callee.render (← function value)
  else if value.type = .text then text value
  else if value.type = .bool then return if ← bool value then ":true" else ":false"
  else if value.type = .nil then .ok ":nil"
  else if value.type = .int then return toString (← int value).toInt
  else if value.type = .list then
    match _taken : list value with
    | .ok items => return "[" ++ String.intercalate " " (← renderItems items) ++ "]"
    | .error stop => .error stop
  else denied
termination_by sizeOf value
decreasing_by exact sizeOf_lt_of_list _taken

/-- The texts of several values. -/
def renderItems [Callee φ] : List (Value φ) → Except Stop (List String)
  | [] => .ok []
  | first :: rest => return (← render first) :: (← renderItems rest)
termination_by items => sizeOf items

end

mutual

/-- Equality of values, type by type. -/
def equal [Callee φ] (left right : Value φ) : Except Stop Bool :=
  if left.type ≠ right.type then .ok false
  else if left.type = .nil then .ok true
  else if left.type = .int then return (← int left) == (← int right)
  else if left.type = .text then return (← text left) == (← text right)
  else if left.type = .bool then return (← bool left) == (← bool right)
  else if left.type = .function then return Callee.same (← function left) (← function right)
  else if left.type = .list then
    match _taken : list left with
    | .ok lefts => do
      let rights ← list right
      if lefts.length ≠ rights.length then .ok false else equalItems lefts rights
    | .error stop => .error stop
  else denied
termination_by sizeOf left
decreasing_by exact sizeOf_lt_of_list _taken

/-- Equality of lists, of which the second must not be the shorter one. -/
def equalItems [Callee φ] : List (Value φ) → List (Value φ) → Except Stop Bool
  | [], _ => .ok true
  | left :: lefts, right :: rights => do
    if ← equal left right then equalItems lefts rights else .ok false
  | _ :: _, [] => denied
termination_by lefts => sizeOf lefts

end

theorem truthy_eq (value : Value φ) : truthy value = .ok value.truthy := by
  cases value with
  | list items => cases items <;> rfl
  | nil | int | text | bool | function => rfl

mutual

theorem render_eq [Callee φ] : (value : Value φ) → render value = .ok value.render
  | .list items => by
    rw [render]
    change (do return "[" ++ String.intercalate " " (← renderItems items) ++ "]") = _
    rw [renderItems_eq items]
    rfl
  | .nil => by rw [render]; rfl
  | .int _ => by rw [render]; rfl
  | .text _ => by rw [render]; rfl
  | .bool true => by rw [render]; rfl
  | .bool false => by rw [render]; rfl
  | .function _ => by rw [render]; rfl

theorem renderItems_eq [Callee φ] :
    (items : List (Value φ)) → renderItems items = .ok (Value.renderItems items)
  | [] => by rw [renderItems]; rfl
  | first :: rest => by
    rw [renderItems, render_eq first, renderItems_eq rest]
    rfl

end

theorem equal_of_type_ne [Callee φ] {left right : Value φ} (different : left.type ≠ right.type) :
    left.equal right = false := by
  cases left <;> cases right <;> first | rfl | exact absurd rfl different

theorem equalItems_of_length_ne [Callee φ] {lefts rights : List (Value φ)}
    (different : lefts.length ≠ rights.length) : Value.equalItems lefts rights = false := by
  induction lefts generalizing rights with
  | nil =>
    cases rights with
    | nil => exact absurd rfl different
    | cons => rfl
  | cons left lefts ih =>
    cases rights with
    | nil => rfl
    | cons right rights =>
      have shorter : lefts.length ≠ rights.length := fun same => different (congrArg (· + 1) same)
      rw [Value.equalItems, ih shorter, Bool.and_false]

mutual

theorem equal_eq [Callee φ] (left right : Value φ) : equal left right = .ok (left.equal right) := by
  by_cases same : left.type = right.type
  · match left, right with
    | .nil, .nil | .int _, .int _ | .text _, .text _ | .bool _, .bool _
    | .function _, .function _ =>
      rw [equal]
      rfl
    | .list lefts, .list rights =>
      rw [equal]
      change (if lefts.length ≠ rights.length then .ok false else equalItems lefts rights) = _
      by_cases length : lefts.length = rights.length
      · rw [if_neg (not_not_intro length), equalItems_eq lefts rights length, Value.equal]
      · rw [if_pos length, Value.equal, equalItems_of_length_ne length]
  · rw [equal, if_pos same, equal_of_type_ne same]

theorem equalItems_eq [Callee φ] (lefts rights : List (Value φ))
    (same : lefts.length = rights.length) :
    equalItems lefts rights = .ok (Value.equalItems lefts rights) := by
  match lefts, rights with
  | [], [] =>
    rw [equalItems]
    rfl
  | left :: lefts, right :: rights =>
    rw [equalItems, equal_eq left right, Value.equalItems]
    have rest := equalItems_eq lefts rights (Nat.succ.inj same)
    cases left.equal right with
    | true => exact rest
    | false => rfl

end

/-! ## Builtin functions -/

/-- The result of an operation that can fail for a reason. -/
def faulty : Except Fault α → Except Stop α :=
  Except.mapError .fault

/-- A function that takes a certain number of arguments is given as many. -/
def expectArguments (arguments : List (Value φ)) (count : Nat) : Except Stop Unit :=
  if arguments.length = count then .ok ()
  else .error (.fault (.wrongArity (.exactly count) arguments.length))

/-- A function that takes one or more arguments is given some. -/
def expectSome (arguments : List (Value φ)) : Except Stop Unit :=
  if 1 ≤ arguments.length then .ok ()
  else .error (.fault (.wrongArity (.atLeast 1) arguments.length))

/-- A value has the type that is needed. -/
def expectType (value : Value φ) (type : ValueType) : Except Stop Unit :=
  if value.type = type then .ok () else .error (.fault (.wrongType type value.type))

/-- All arguments are integers. -/
def expectIntegers : List (Value φ) → Except Stop Unit
  | [] => .ok ()
  | first :: rest => do
    expectType first .int
    expectIntegers rest

/-- The sum of two integers, or two texts or lists one after the other, type by type. -/
def plus (left right : Value φ) : Except Stop (Value φ) :=
  if left.type ≠ right.type then .error (.fault (.wrongType left.type right.type))
  else if left.type = .int then
    return .int (← faulty (Builtin.checked ((← int left).toInt + (← int right).toInt)))
  else if left.type = .text then return .text ((← text left) ++ (← text right))
  else if left.type = .list then return .list ((← list left) ++ (← list right))
  else .error (.fault (.wrongType .int left.type))

/-- The difference of an integer and a value that must be one. -/
def minus (left : Int64) (right : Value φ) : Except Stop Int64 := do
  faulty (Builtin.minus left (← int right))

/-- A function of two integers. -/
def onIntegers (operation : Int64 → Int64 → Except Fault (Value φ)) (arguments : List (Value φ)) :
    Except Stop (Value φ) := do
  expectArguments arguments 2
  expectIntegers arguments
  faulty (operation (← int (← item arguments 0)) (← int (← item arguments 1)))

/-- A function of two values. -/
def onPair (operation : Value φ → Value φ → Except Stop (Value φ)) (arguments : List (Value φ)) :
    Except Stop (Value φ) := do
  expectArguments arguments 2
  operation (← item arguments 0) (← item arguments 1)

/-- A function of one list. -/
def onList (operation : List (Value φ) → Except Stop (Value φ)) (arguments : List (Value φ)) :
    Except Stop (Value φ) := do
  expectArguments arguments 1
  expectType (← item arguments 0) .list
  operation (← list (← item arguments 0))

/-- The value of a builtin function, with every argument taken out by itself. -/
def apply [Callee φ] (builtin : Builtin) (arguments : List (Value φ)) : Except Stop (Value φ) :=
  match builtin with
  | .add => do
    expectSome arguments
    (← slice arguments 1).foldlM plus (← item arguments 0)
  | .sub => do
    expectSome arguments
    expectIntegers arguments
    return .int (← (← slice arguments 1).foldlM minus (← int (← item arguments 0)))
  | .mul => onIntegers (fun left right => return .int (← Builtin.times left right)) arguments
  | .div => onIntegers (fun left right => return .int (← Builtin.quotient left right)) arguments
  | .equal | .eq => onPair (fun left right => return .bool (← equal left right)) arguments
  | .notEqual => onPair (fun left right => return .bool !(← equal left right)) arguments
  | .ampersand | .conj =>
    onPair (fun left right => return if ← truthy left then right else left) arguments
  | .disj => onPair (fun left right => return if ← truthy left then left else right) arguments
  | .neg => do
    expectArguments arguments 1
    return .bool !(← truthy (← item arguments 0))
  | .less => onIntegers (fun left right => return .bool (left < right)) arguments
  | .greater => onIntegers (fun left right => return .bool (left > right)) arguments
  | .lessEqual => onIntegers (fun left right => return .bool (left ≤ right)) arguments
  | .greaterEqual => onIntegers (fun left right => return .bool (left ≥ right)) arguments
  | .car =>
    onList (fun items =>
      if items.length = 0 then .error (.fault .headOfEmpty) else item items 0) arguments
  | .cdr =>
    onList (fun items =>
      if items.length = 0 then .ok (.list []) else return .list (← slice items 1)) arguments
  | .cons => do
    expectArguments arguments 2
    expectType (← item arguments 1) .list
    return .list ((← item arguments 0) :: (← list (← item arguments 1)))
  | .list => .ok (.list arguments)
  | .length => onList (fun items => return .int (Int64.ofNat items.length)) arguments
  | .isEmpty => onList (fun items => return .bool (items.length = 0)) arguments

theorem faulty_bind (action : Except Fault α) (next : α → Except Fault β) :
    faulty (action >>= next) = faulty action >>= fun value => faulty (next value) := by
  cases action <;> rfl

theorem foldlM_faulty {operation : β → α → Except Stop β} {operation' : β → α → Except Fault β}
    (each : ∀ result item, operation result item = faulty (operation' result item))
    (items : List α) (start : β) :
    items.foldlM operation start = faulty (items.foldlM operation' start) := by
  induction items generalizing start with
  | nil => rfl
  | cons first rest ih =>
    rw [List.foldlM_cons, List.foldlM_cons, faulty_bind, each]
    congr 1
    funext result
    exact ih result

theorem plus_eq (left right : Value φ) : plus left right = faulty (Builtin.plus left right) := by
  cases left <;> cases right <;> try rfl
  case int.int left right =>
    change (do return Value.int (← faulty (Builtin.checked _))) = _
    rw [Builtin.plus, faulty_bind]
    rfl

/-- Integers are taken out of all arguments that are integers; else the first that is none is
reported. -/
theorem expectIntegers_cases (arguments : List (Value φ)) :
    (∃ integers : List Int64, arguments = integers.map .int ∧
      expectIntegers arguments = .ok () ∧ arguments.mapM Builtin.integer = .ok integers) ∨
    ∃ fault, expectIntegers arguments = .error (.fault fault) ∧
      arguments.mapM Builtin.integer = .error fault := by
  induction arguments with
  | nil => exact .inl ⟨[], rfl, rfl, rfl⟩
  | cons first rest ih =>
    rw [List.mapM_cons]
    cases first with
    | int value =>
      rcases ih with ⟨integers, rfl, expected, taken⟩ | ⟨fault, refused, failed⟩
      · refine .inl ⟨value :: integers, rfl, expected, ?_⟩
        rw [taken]
        rfl
      · refine .inr ⟨fault, refused, ?_⟩
        rw [failed]
        rfl
    | nil | text | bool | list | function => exact .inr ⟨_, rfl, rfl⟩

theorem onPair_eq {operation : Value φ → Value φ → Except Stop (Value φ)}
    (combine : Value φ → Value φ → Value φ)
    (each : ∀ left right, operation left right = .ok (combine left right))
    (arguments : List (Value φ)) :
    onPair operation arguments =
      faulty (do
        let (left, right) ← Builtin.pair arguments
        return combine left right) := by
  match arguments with
  | [left, right] => exact each left right
  | [] | [_] | _ :: _ :: _ :: _ => rfl

theorem onIntegers_eq (operation : Int64 → Int64 → Except Fault (Value φ))
    (arguments : List (Value φ)) :
    onIntegers operation arguments =
      faulty (Builtin.integerPair arguments >>= fun (left, right) => operation left right) := by
  match arguments with
  | [left, right] =>
    cases left with
    | int left =>
      cases right with
      | int right => rfl
      | nil | text | bool | list | function => rfl
    | nil | text | bool | list | function => rfl
  | [] | [_] | _ :: _ :: _ :: _ => rfl

theorem onList_eq {operation : List (Value φ) → Except Stop (Value φ)}
    (operation' : List (Value φ) → Except Fault (Value φ))
    (each : ∀ items, operation items = faulty (operation' items)) (arguments : List (Value φ)) :
    onList operation arguments = faulty (Builtin.singleList arguments >>= operation') := by
  match arguments with
  | [argument] =>
    cases argument with
    | list items => exact each items
    | nil | int | text | bool | function => rfl
  | [] | _ :: _ :: _ => rfl

theorem sub_eq [Callee φ] (first : Value φ) (rest : List (Value φ)) :
    apply .sub (first :: rest) = faulty (Builtin.apply .sub (first :: rest)) := by
  cases first with
  | int value =>
    change (expectIntegers rest >>= fun _ => rest.foldlM minus value >>= fun result =>
        pure (Value.int result)) =
      faulty (rest.mapM Builtin.integer >>= fun integers =>
        integers.foldlM Builtin.minus value >>= fun result => pure (Value.int result))
    rcases expectIntegers_cases rest with
      ⟨integers, rfl, expected, taken⟩ | ⟨fault, refused, failed⟩
    · have folded : (integers.map (@Value.int φ)).foldlM minus value =
          faulty (integers.foldlM Builtin.minus value) := by
        rw [List.foldlM_map]
        exact foldlM_faulty (fun _ _ => rfl) integers value
      rw [expected, taken, folded]
      exact (faulty_bind (integers.foldlM Builtin.minus value) (pure ∘ Value.int)).symm
    · rw [refused, failed]
      rfl
  | nil | text | bool | list | function => rfl

/-- Every builtin function asks all that is to be asked before it takes an argument for what it
is. -/
theorem apply_eq [Callee φ] (builtin : Builtin) (arguments : List (Value φ)) :
    apply builtin arguments = faulty (builtin.apply arguments) := by
  cases builtin with
  | add =>
    cases arguments with
    | nil => rfl
    | cons first rest => exact foldlM_faulty plus_eq rest first
  | sub =>
    cases arguments with
    | nil => rfl
    | cons first rest => exact sub_eq first rest
  | mul => exact onIntegers_eq _ arguments
  | div => exact onIntegers_eq _ arguments
  | equal | eq =>
    apply onPair_eq fun left right => .bool (left.equal right)
    intro left right
    rw [equal_eq]
    rfl
  | notEqual =>
    apply onPair_eq fun left right => .bool !left.equal right
    intro left right
    rw [equal_eq]
    rfl
  | ampersand | conj =>
    apply onPair_eq Builtin.both
    intro left right
    rw [truthy_eq]
    rfl
  | disj =>
    apply onPair_eq Builtin.either
    intro left right
    rw [truthy_eq]
    rfl
  | neg =>
    match arguments with
    | [argument] =>
      change (do return Value.bool !(← truthy argument)) = _
      rw [truthy_eq]
      rfl
    | [] | _ :: _ :: _ => rfl
  | less | greater | lessEqual | greaterEqual => exact onIntegers_eq _ arguments
  | car =>
    match arguments with
    | [.list []] | [.list (_ :: _)] => rfl
    | [.nil] | [.int _] | [.text _] | [.bool _] | [.function _] | [] | _ :: _ :: _ => rfl
  | cdr =>
    apply onList_eq fun items => .ok (.list items.tail)
    intro items
    cases items <;> rfl
  | cons =>
    match arguments with
    | [first, rest] => cases rest <;> rfl
    | [] | [_] | _ :: _ :: _ :: _ => rfl
  | list => rfl
  | length => exact onList_eq (fun items => .ok (.int (Int64.ofNat items.length))) (fun _ => rfl) _
  | isEmpty =>
    apply onList_eq fun items => .ok (.bool items.isEmpty)
    intro items
    cases items <;> rfl

end MiniLisp.Access
