import Mathlib.Data.List.Basic

/-!
# Nested traces

In a trace every call stands before its result, both at the same depth, and all that happens in the
call stands between them at a greater depth.  For this it matters only what is a call or a result
and how deep it is, so traces are taken here as words of brackets, and nesting is stated about
positions in a word.  It follows from the way in which traces grow: whole calls stand next to each
other and inside one another, and where an evaluation was broken off, the calls that were going on
stand inside one another without their results.
-/

namespace MiniLisp.Trace

/-- What a bracket marks. -/
inductive Bracket.Kind where
  | call
  | result
  | other
  deriving DecidableEq, Repr

/-- A place in a trace: what it marks, and how deep it is. -/
structure Bracket where
  kind : Bracket.Kind
  depth : Nat
  deriving DecidableEq, Repr

variable {word before after : List Bracket} {depth call result : Nat}

/-! ## Calls and their results -/

/-- The call at one position returns with the result at another: the result comes later at the same
depth, and all between them is deeper. -/
structure Returns (word : List Bracket) (depth call result : Nat) : Prop where
  later : call < result
  opens : ∃ opening, word[call]? = some opening ∧ opening.kind = .call ∧ opening.depth = depth
  closes : ∃ closing, word[result]? = some closing ∧ closing.kind = .result ∧ closing.depth = depth
  deeper : ∀ between bracket, call < between → between < result → word[between]? = some bracket →
    depth < bracket.depth

/-- In a well nested trace every call returns with exactly one result, and every result is that of
exactly one call. -/
structure WellNested (word : List Bracket) : Prop where
  calls : ∀ call opening, word[call]? = some opening → opening.kind = .call →
    ∃! result, Returns word opening.depth call result
  results : ∀ result closing, word[result]? = some closing → closing.kind = .result →
    ∃! call, Returns word closing.depth call result

/-- A call that does not return. -/
def Active (word : List Bracket) (call : Nat) (opening : Bracket) : Prop :=
  word[call]? = some opening ∧ opening.kind = .call ∧
    ∀ result, ¬Returns word opening.depth call result

/-- A second result at the same depth would lie inside the call. -/
theorem Returns.result_unique {result' : Nat} (returns : Returns word depth call result)
    (returns' : Returns word depth call result') : result = result' := by
  obtain ⟨closing, found, -, level⟩ := returns.closes
  obtain ⟨closing', found', -, level'⟩ := returns'.closes
  rcases Nat.lt_trichotomy result result' with earlier | same | later
  · have inside := returns'.deeper result closing returns.later earlier found
    omega
  · exact same
  · have inside := returns.deeper result' closing' returns'.later later found'
    omega

theorem Returns.call_unique {call' : Nat} (returns : Returns word depth call result)
    (returns' : Returns word depth call' result) : call = call' := by
  obtain ⟨opening, found, -, level⟩ := returns.opens
  obtain ⟨opening', found', -, level'⟩ := returns'.opens
  rcases Nat.lt_trichotomy call call' with earlier | same | later
  · have inside := returns.deeper call' opening' earlier returns'.later found'
    omega
  · exact same
  · have inside := returns'.deeper call opening later returns.later found
    omega

/-- What stands behind a call and its result does not matter to them. -/
theorem Returns.extend (returns : Returns word depth call result) (after : List Bracket) :
    Returns (word ++ after) depth call result := by
  obtain ⟨later, ⟨opening, found, calls⟩, ⟨closing, found', comes⟩, deeper⟩ := returns
  have inside : result < word.length := (List.getElem?_eq_some_iff.mp found').1
  refine ⟨later, ⟨opening, ?_, calls⟩, ⟨closing, ?_, comes⟩, ?_⟩
  · rw [List.getElem?_append_left (Nat.lt_trans later inside)]
    exact found
  · rw [List.getElem?_append_left inside]
    exact found'
  · intro between bracket behind ahead present
    rw [List.getElem?_append_left (Nat.lt_trans ahead inside)] at present
    exact deeper between bracket behind ahead present

/-- What stands in front of a call and its result does not matter to them. -/
theorem Returns.shift (returns : Returns word depth call result) (before : List Bracket) :
    Returns (before ++ word) depth (before.length + call) (before.length + result) := by
  obtain ⟨later, ⟨opening, found, calls⟩, ⟨closing, found', comes⟩, deeper⟩ := returns
  have moved : ∀ index, (before ++ word)[before.length + index]? = word[index]? := by
    intro index
    rw [List.getElem?_append_right (Nat.le_add_right _ _), Nat.add_sub_cancel_left]
  refine ⟨Nat.add_lt_add_left later _, ⟨opening, ?_, calls⟩, ⟨closing, ?_, comes⟩, ?_⟩
  · rw [moved]
    exact found
  · rw [moved]
    exact found'
  · intro between bracket behind ahead present
    obtain ⟨index, rfl⟩ := Nat.exists_eq_add_of_le (Nat.le_of_lt (Nat.lt_of_le_of_lt
      (Nat.le_add_right _ _) behind))
    rw [moved] at present
    exact deeper index bracket (Nat.lt_of_add_lt_add_left behind) (Nat.lt_of_add_lt_add_left ahead)
      present

/-- A position in a concatenation lies in the first part or in the second. -/
theorem getElem?_append_cases {index : Nat} {bracket : Bracket}
    (present : (before ++ word)[index]? = some bracket) :
    before[index]? = some bracket ∨
      ∃ rest, index = before.length + rest ∧ word[rest]? = some bracket := by
  rcases Nat.lt_or_ge index before.length with inside | behind
  · rw [List.getElem?_append_left inside] at present
    exact .inl present
  · obtain ⟨rest, rfl⟩ := Nat.exists_eq_add_of_le behind
    rw [List.getElem?_append_right behind, Nat.add_sub_cancel_left] at present
    exact .inr ⟨rest, rfl, present⟩

/-- Every call returns, and every result is that of a call. -/
structure Closed (word : List Bracket) : Prop where
  calls : ∀ call opening, word[call]? = some opening → opening.kind = .call →
    ∃ result, Returns word opening.depth call result
  results : ∀ result closing, word[result]? = some closing → closing.kind = .result →
    ∃ call, Returns word closing.depth call result

theorem Closed.wellNested (closed : Closed word) : WellNested word := by
  constructor
  · intro call opening present calls
    obtain ⟨result, returns⟩ := closed.calls call opening present calls
    exact ⟨result, returns, fun _ returns' => returns'.result_unique returns⟩
  · intro result closing present comes
    obtain ⟨call, returns⟩ := closed.results result closing present comes
    exact ⟨call, returns, fun _ returns' => returns'.call_unique returns⟩

theorem closed_nil : Closed [] :=
  ⟨nofun, nofun⟩

theorem closed_other {bracket : Bracket} (other : bracket.kind = .other) : Closed [bracket] := by
  constructor
  · intro call opening present calls
    cases List.mem_singleton.mp (List.mem_of_getElem? present)
    cases other.symm.trans calls
  · intro result closing present comes
    cases List.mem_singleton.mp (List.mem_of_getElem? present)
    cases other.symm.trans comes

theorem Closed.append (first : Closed before) (second : Closed word) :
    Closed (before ++ word) := by
  constructor
  · intro call opening present calls
    rcases getElem?_append_cases present with here | ⟨rest, rfl, there⟩
    · obtain ⟨result, returns⟩ := first.calls call opening here calls
      exact ⟨result, returns.extend word⟩
    · obtain ⟨result, returns⟩ := second.calls rest opening there calls
      exact ⟨_, returns.shift before⟩
  · intro result closing present comes
    rcases getElem?_append_cases present with here | ⟨rest, rfl, there⟩
    · obtain ⟨call, returns⟩ := first.results result closing here comes
      exact ⟨call, returns.extend word⟩
    · obtain ⟨call, returns⟩ := second.results rest closing there comes
      exact ⟨_, returns.shift before⟩

section Enclosed

variable {opening closing : Bracket}

/-- A call around deeper word returns with the result behind them. -/
theorem returns_around (calls : opening.kind = .call) (comes : closing.kind = .result)
    (level : closing.depth = opening.depth)
    (deeper : ∀ bracket ∈ word, opening.depth < bracket.depth) :
    Returns (opening :: (word ++ [closing])) opening.depth 0 (1 + word.length) := by
  refine ⟨by omega, ⟨opening, rfl, calls, rfl⟩, ⟨closing, ?_, comes, level⟩, ?_⟩
  · rw [Nat.add_comm, List.getElem?_cons_succ, List.getElem?_append_right (Nat.le_refl _),
      Nat.sub_self]
    rfl
  · intro between bracket behind ahead present
    obtain ⟨index, rfl⟩ := Nat.exists_eq_succ_of_ne_zero (Nat.ne_zero_of_lt behind)
    have inside : index < word.length := by omega
    rw [List.getElem?_cons_succ, List.getElem?_append_left inside] at present
    exact deeper bracket (List.mem_of_getElem? present)

theorem getElem?_enclosed_cases {index : Nat} {bracket : Bracket}
    (present : (opening :: (word ++ [closing]))[index]? = some bracket) :
    index = 0 ∧ bracket = opening ∨
      (∃ inner, index = 1 + inner ∧ word[inner]? = some bracket) ∨
      index = 1 + word.length ∧ bracket = closing := by
  cases index with
  | zero =>
    cases present
    exact .inl ⟨rfl, rfl⟩
  | succ index =>
    rw [List.getElem?_cons_succ] at present
    rcases getElem?_append_cases present with here | ⟨rest, rfl, there⟩
    · exact .inr (.inl ⟨index, Nat.add_comm _ _, here⟩)
    · obtain ⟨inside, rfl⟩ := List.getElem?_eq_some_iff.mp there
      cases Nat.lt_one_iff.mp inside
      exact .inr (.inr ⟨Nat.add_comm _ _, rfl⟩)

theorem Closed.enclose (inside : Closed word) (calls : opening.kind = .call)
    (comes : closing.kind = .result) (level : closing.depth = opening.depth)
    (deeper : ∀ bracket ∈ word, opening.depth < bracket.depth) :
    Closed (opening :: (word ++ [closing])) := by
  have outer := returns_around calls comes level deeper
  have moved : ∀ {depth call result}, Returns word depth call result →
      Returns (opening :: (word ++ [closing])) depth (1 + call) (1 + result) :=
    fun returns => (returns.extend [closing]).shift [opening]
  constructor
  · intro call found present called
    rcases getElem?_enclosed_cases present with ⟨rfl, rfl⟩ | ⟨inner, rfl, here⟩ | ⟨rfl, rfl⟩
    · exact ⟨_, outer⟩
    · obtain ⟨result, returns⟩ := inside.calls inner found here called
      exact ⟨_, moved returns⟩
    · cases comes.symm.trans called
  · intro result found present returned
    rcases getElem?_enclosed_cases present with ⟨rfl, rfl⟩ | ⟨inner, rfl, here⟩ | ⟨rfl, rfl⟩
    · cases calls.symm.trans returned
    · obtain ⟨call, returns⟩ := inside.results inner found here returned
      exact ⟨_, moved returns⟩
    · rw [level]
      exact ⟨_, outer⟩

end Enclosed

/-! ## Whole traces -/

/-- Whole calls, and brackets that are no part of a call, one after the other, none of them above a
certain depth. -/
inductive Balanced : Nat → List Bracket → Prop where
  | nil {floor : Nat} : Balanced floor []
  | other {floor : Nat} {bracket : Bracket} {rest : List Bracket} (other : bracket.kind = .other)
      (above : floor ≤ bracket.depth) (after : Balanced floor rest) :
      Balanced floor (bracket :: rest)
  | call {floor : Nat} {opening closing : Bracket} {inside rest : List Bracket}
      (calls : opening.kind = .call) (comes : closing.kind = .result)
      (level : closing.depth = opening.depth) (above : floor ≤ opening.depth)
      (inner : Balanced (opening.depth + 1) inside)
      (after : Balanced floor rest) : Balanced floor (opening :: (inside ++ [closing]) ++ rest)

variable {floor : Nat} {rest : List Bracket}

theorem Balanced.mono {lower : Nat} (le : lower ≤ floor) (balanced : Balanced floor word) :
    Balanced lower word := by
  induction balanced with
  | nil => exact .nil
  | other other above _ ih => exact .other other (Nat.le_trans le above) (ih le)
  | call calls comes level above inner _ _ ih =>
    exact .call calls comes level (Nat.le_trans le above) inner (ih le)

theorem Balanced.append (first : Balanced floor word) (second : Balanced floor rest) :
    Balanced floor (word ++ rest) := by
  induction first with
  | nil => exact second
  | other other above _ ih => exact .other other above (ih second)
  | call calls comes level above inner _ _ ih =>
    rw [List.append_assoc]
    exact .call calls comes level above inner (ih second)

theorem Balanced.le_depth (balanced : Balanced floor word) :
    ∀ bracket ∈ word, floor ≤ bracket.depth := by
  induction balanced with
  | nil => exact nofun
  | other other above _ ih => exact List.forall_mem_cons.mpr ⟨above, ih⟩
  | call calls comes level above inner _ ihInner ih =>
    intro bracket member
    rw [List.mem_append, List.mem_cons, List.mem_append, List.mem_singleton] at member
    rcases member with (rfl | member | rfl) | member
    · exact above
    · exact Nat.le_trans above (Nat.le_of_succ_le (ihInner bracket member))
    · rw [level]
      exact above
    · exact ih bracket member

theorem Balanced.closed (balanced : Balanced floor word) : Closed word := by
  induction balanced with
  | nil => exact closed_nil
  | other other above _ ih => exact (closed_other other).append ih
  | call calls comes level above inner _ ihInner ih =>
    exact (ihInner.enclose calls comes level inner.le_depth).append ih

/-! ## Traces that are broken off -/

/-- A whole trace, or a whole trace in front of a call that does not return. -/
inductive Pending : Nat → List Bracket → Prop where
  | balanced {floor : Nat} {word : List Bracket} (balanced : Balanced floor word) :
      Pending floor word
  | call {floor : Nat} {opening : Bracket} {before inside : List Bracket}
      (earlier : Balanced floor before) (calls : opening.kind = .call)
      (above : floor ≤ opening.depth) (inner : Pending (opening.depth + 1) inside) :
      Pending floor (before ++ opening :: inside)

theorem Pending.mono {lower : Nat} (le : lower ≤ floor) (pending : Pending floor word) :
    Pending lower word := by
  cases pending with
  | balanced balanced => exact .balanced (balanced.mono le)
  | call earlier calls above inner =>
    exact .call (earlier.mono le) calls (Nat.le_trans le above) inner

theorem Balanced.append_pending (first : Balanced floor word) (second : Pending floor rest) :
    Pending floor (word ++ rest) := by
  cases second with
  | balanced balanced => exact .balanced (first.append balanced)
  | call earlier calls above inner =>
    rw [← List.append_assoc]
    exact .call (first.append earlier) calls above inner

theorem Pending.le_depth (pending : Pending floor word) :
    ∀ bracket ∈ word, floor ≤ bracket.depth := by
  induction pending with
  | balanced balanced => exact balanced.le_depth
  | call earlier calls above inner ih =>
    intro bracket member
    rw [List.mem_append, List.mem_cons] at member
    rcases member with member | rfl | member
    · exact earlier.le_depth bracket member
    · exact above
    · exact Nat.le_trans above (Nat.le_of_succ_le (ih bracket member))

/-- Results for the calls that do not return make a trace whole. -/
theorem Pending.completion (pending : Pending floor word) :
    ∃ completion, (∀ bracket ∈ completion, bracket.kind = .result) ∧
      Balanced floor (word ++ completion) := by
  induction pending with
  | @balanced floor word balanced => exact ⟨[], nofun, by rwa [List.append_nil]⟩
  | @call floor opening before inside earlier calls above inner ih =>
    obtain ⟨completion, results, balanced⟩ := ih
    let closing : Bracket := ⟨.result, opening.depth⟩
    have comes : closing.kind = .result := rfl
    refine ⟨completion ++ [closing], ?_, ?_⟩
    · intro bracket member
      rw [List.mem_append, List.mem_singleton] at member
      rcases member with member | rfl
      · exact results bracket member
      · exact comes
    · have whole : Balanced floor (opening :: (inside ++ completion ++ [closing]) ++ []) :=
        .call calls comes rfl above balanced .nil
      have joined := earlier.append whole
      simpa using joined

/-- Behind a whole trace, a call that does not return is the next one or stands in it. -/
theorem Active.cases {opening outer : Bracket} (closed : Closed before)
    (active : Active (before ++ outer :: rest) call opening) :
    call = before.length ∧ opening = outer ∨
      ∃ inner, call = before.length + (1 + inner) ∧ Active rest inner opening := by
  obtain ⟨present, calls, unanswered⟩ := active
  rcases getElem?_append_cases present with here | ⟨index, rfl, there⟩
  · obtain ⟨result, returns⟩ := closed.calls call opening here calls
    exact absurd (returns.extend _) (unanswered result)
  · cases index with
    | zero =>
      cases there
      exact .inl ⟨rfl, rfl⟩
    | succ inner =>
      rw [Nat.add_comm inner] at unanswered ⊢
      refine .inr ⟨inner, rfl, there, calls, fun result returns => ?_⟩
      exact unanswered _ ((returns.shift [outer]).shift before)

/-- Calls that do not return stand inside one another. -/
theorem Pending.increasing (pending : Pending floor word) {call call' : Nat}
    {opening opening' : Bracket} (earlier : call < call') (active : Active word call opening)
    (active' : Active word call' opening') : opening.depth < opening'.depth := by
  induction pending generalizing call call' with
  | balanced balanced =>
    obtain ⟨present, calls, unanswered⟩ := active
    obtain ⟨result, returns⟩ := balanced.closed.calls call opening present calls
    exact absurd returns (unanswered result)
  | call balanced calls above inner ih =>
    rcases active.cases balanced.closed with ⟨rfl, rfl⟩ | ⟨index, rfl, inside⟩
    · rcases active'.cases balanced.closed with ⟨rfl, rfl⟩ | ⟨index', rfl, inside'⟩
      · exact absurd earlier (Nat.lt_irrefl _)
      · exact inner.le_depth opening' (List.mem_of_getElem? inside'.1)
    · rcases active'.cases balanced.closed with ⟨rfl, rfl⟩ | ⟨index', rfl, inside'⟩
      · omega
      · exact ih (by omega) inside inside'

end MiniLisp.Trace
