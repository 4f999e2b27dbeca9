import MiniLisp.Proofs.Reader.Calls

/-!
# Faults are found as early as possible

Reading fails at the first token that makes the tokens hopeless, because of what is wrong with that
token, or else at the end, where the tokens in front of it are the beginning of a program and lists
are still open.  Where one form is wanted, nothing else is a fault but a text without any form and a
second form.
-/

namespace MiniLisp.Reader

variable {depth : Nat} {token : Token} {tokens front rest : List Token}

/-- The token at an index is the first one up to which the tokens begin no program. -/
structure FirstHopeless (tokens : List Token) (index : Nat) (token : Token) : Prop where
  found : tokens[index]? = some token
  hopeless : ¬Promising 0 (tokens.take (index + 1))
  earlier : ∀ before, before < index → Promising 0 (tokens.take (before + 1))

/-- What is wrong with a token behind those in front of it. -/
inductive Blames (front : List Token) (token : Token) : Fault → Prop where
  | unopened (closes : token.kind = .closeList) (level : openings front = closings front) :
      Blames front token .unexpectedToken
  | invalid (kind : token.kind = .invalid) : Blames front token .unexpectedToken
  | literal (atomic : token.kind.isAtom = true)
      (digits : token.text.toList.all Char.isDigit = true)
      (large : 0x7fffffffffffffff < Nat.ofDigitChars 10 token.text.toList 0) :
      Blames front token (.integerRange token.text)

/-- The token that marks the end for a reader: the first one that does, or the one that lies behind
all tokens. -/
def endReached (tokens : List Token) : Token :=
  (tokens.find? fun token => token.kind = .endOfInput).getD pastEnd

/-- The end is marked behind all other tokens. -/
def EndsLast (tokens : List Token) : Prop :=
  tokens.Pairwise fun earlier later => earlier.kind = .endOfInput → later.kind = .endOfInput

@[simp] theorem beforeEnd_nil : beforeEnd [] = [] := rfl

@[simp] theorem endReached_nil : endReached [] = pastEnd := rfl

theorem endReached_end (ahead : List Token) (ends : token.kind = .endOfInput) :
    endReached (token :: ahead) = token := by
  simp [endReached, ends]

/-! ## Tokens that pass -/

theorem readable_of_goesOn (goesOn : ¬StopsAt depth token) : Readable token := by
  obtain ⟨notEnd, none⟩ := goesOn_iff.mp goesOn
  cases kind : token.kind with
  | openList => exact .inl kind
  | closeList => exact .inr (.inl kind)
  | endOfInput => exact absurd kind notEnd
  | invalid => simp [offence?, kind] at none
  | atom | string =>
    have atomic : token.kind.isAtom = true := by rw [kind]; rfl
    rw [offence?_atom atomic, ite_eq_right_iff] at none
    refine (readable_atom_iff atomic).mpr fun digits => Nat.not_lt.mp fun large => ?_
    cases none ⟨digits, large⟩

/-- A token that does not stop the reader shifts the depth by the lists it opens and closes. -/
theorem levelBehind_shift (goesOn : ¬StopsAt depth token) :
    depth + openings [token] = levelBehind depth token + closings [token] := by
  cases kind : token.kind with
  | closeList =>
    have opened : depth ≠ 0 := by
      rintro rfl
      exact goesOn (.inr (by simp [offence?, kind]))
    simp only [levelBehind, openings, closings, kind, List.countP_singleton]
    simp only [reduceCtorEq, decide_false, decide_true, if_true, Bool.false_eq_true, if_false]
    omega
  | openList | atom | string | invalid | endOfInput =>
    simp [levelBehind, openings, closings, kind]

theorem Passes.acceptable_iff (passes : Passes depth front) :
    Acceptable depth (front ++ rest) ↔ Acceptable (depthBehind depth front) rest := by
  induction front generalizing depth with
  | nil => rfl
  | cons token front ih =>
    obtain ⟨goesOn, passes⟩ := passes
    rw [List.cons_append, acceptable_cons (readable_of_goesOn goesOn) (levelBehind_shift goesOn)]
    exact ih passes

theorem Passes.promising_iff (passes : Passes depth front) :
    Promising depth (front ++ rest) ↔ Promising (depthBehind depth front) rest := by
  simp only [Promising, List.append_assoc, passes.acceptable_iff]

/-- Closing parentheses complete whatever passes. -/
theorem promising_nil (depth : Nat) : Promising depth [] := by
  refine ⟨List.replicate depth ⟨.closeList, ")", ⟨0, 0⟩⟩, acceptable_closers ?_ ?_⟩
  · intro closer member
    rw [List.eq_of_mem_replicate member]
  · exact List.length_replicate

theorem Passes.promising (passes : Passes depth front) : Promising depth front := by
  rw [← List.append_nil front, passes.promising_iff]
  exact promising_nil _

theorem Passes.of_append (passes : Passes depth (front ++ rest)) : Passes depth front := by
  induction front generalizing depth with
  | nil => trivial
  | cons token front ih => exact ⟨passes.1, ih passes.2⟩

theorem Passes.take (passes : Passes depth tokens) (count : Nat) :
    Passes depth (tokens.take count) := by
  rw [← List.take_append_drop count tokens] at passes
  exact passes.of_append

theorem Passes.balance (passes : Passes depth front) :
    depth + openings front = depthBehind depth front + closings front := by
  induction front generalizing depth with
  | nil => rfl
  | cons token front ih =>
    have first := levelBehind_shift passes.1
    have others := ih passes.2
    rw [← List.singleton_append, openings_append, closings_append]
    simp only [List.singleton_append, depthBehind]
    omega

theorem Passes.beforeEnd_append (passes : Passes depth front) (rest : List Token) :
    beforeEnd (front ++ rest) = front ++ beforeEnd rest := by
  induction front generalizing depth with
  | nil => rfl
  | cons token front ih =>
    rw [List.cons_append, beforeEnd_cons _ fun ends => passes.1 (.inl ends), ih passes.2,
      List.cons_append]

theorem Passes.endReached_append (passes : Passes depth front) (rest : List Token) :
    endReached (front ++ rest) = endReached rest := by
  induction front generalizing depth with
  | nil => rfl
  | cons token front ih =>
    have goesOn : decide (token.kind = .endOfInput) = false :=
      decide_eq_false fun ends => passes.1 (.inl ends)
    rw [List.cons_append, endReached, List.find?_cons_of_neg (by simp [goesOn])]
    exact ih passes.2

/-! ## Tokens that offend -/

theorem blames_of_offence {cause : Fault} (passes : Passes 0 front)
    (offends : offence? (depthBehind 0 front) token = some cause) : Blames front token cause := by
  cases kind : token.kind with
  | openList | endOfInput => simp [offence?, kind] at offends
  | invalid =>
    simp only [offence?, kind, Option.some.injEq] at offends
    subst offends
    exact .invalid kind
  | closeList =>
    simp only [offence?, kind] at offends
    split at offends
    next unopened =>
      cases offends
      have balance := passes.balance
      exact .unopened kind (by omega)
    next => cases offends
  | atom | string =>
    have atomic : token.kind.isAtom = true := by rw [kind]; rfl
    rw [offence?_atom atomic] at offends
    split at offends
    next large =>
      cases offends
      exact .literal atomic large.1 large.2
    next => cases offends

/-- Behind a token that offends, no program can go on. -/
theorem not_promising_of_blames {cause : Fault} (passes : Passes 0 front)
    (blames : Blames front token cause) : ¬Promising 0 (front ++ token :: rest) := by
  rw [passes.promising_iff]
  cases blames with
  | unopened closes level =>
    have balance := passes.balance
    have unopened : depthBehind 0 front = 0 := by omega
    rw [unopened]
    exact not_promising_of_unopened closes
  | invalid kind =>
    intro promising
    have readable := promising.readable
    simp [Readable, kind, TokenKind.isAtom] at readable
  | literal atomic digits large =>
    intro promising
    exact Nat.not_lt.mpr ((readable_atom_iff atomic).mp promising.readable digits) large

theorem firstHopeless_of_blames {cause : Fault} (passes : Passes 0 front)
    (blames : Blames front token cause) (rest : List Token) :
    FirstHopeless (front ++ token :: rest) front.length token := by
  refine ⟨by simp, ?_, ?_⟩
  · rw [List.take_length_add_append]
    exact not_promising_of_blames passes blames
  · intro before inside
    rw [List.take_append_of_le_length inside]
    exact (passes.take _).promising

theorem FirstHopeless.unique {index index' : Nat} {token' : Token}
    (first : FirstHopeless tokens index token) (first' : FirstHopeless tokens index' token') :
    index = index' ∧ token = token' := by
  have same : index = index' := by
    rcases Nat.lt_trichotomy index index' with less | same | greater
    · exact absurd (first'.earlier index less) first.hopeless
    · exact same
    · exact absurd (first.earlier index' greater) first'.hopeless
  subst same
  exact ⟨rfl, Option.some.inj (first.found.symm.trans first'.found)⟩

theorem Blames.unique {cause cause' : Fault} (blames : Blames front token cause)
    (blames' : Blames front token cause') : cause = cause' := by
  cases blames <;> cases blames' <;> simp_all [TokenKind.isAtom]

theorem Blames.cause_ne {cause : Fault} (blames : Blames front token cause) :
    cause.cause? ≠ some .unexpectedEnd := by
  cases blames <;> simp [Fault.cause?]

/-! ## How reading comes out -/

/-- Reading stops at a token that is to blame, or it comes to the end, with lists open or with all
forms read. -/
inductive ComesTo (tokens : List Token) : Except Stop (List Form) → Prop where
  | blamed {front ahead : List Token} {token : Token} {cause : Fault}
      (split : tokens = front ++ token :: ahead) (passes : Passes 0 front)
      (goesOn : token.kind ≠ .endOfInput) (blames : Blames front token cause) :
      ComesTo tokens (.error (.fault (.reading cause token)))
  | unclosed (passes : Passes 0 (beforeEnd tokens))
      (opened : depthBehind 0 (beforeEnd tokens) ≠ 0) :
      ComesTo tokens (.error (.fault (.reading .unexpectedEnd (endReached tokens))))
  | whole {forms : List Form} (passes : Passes 0 (beforeEnd tokens))
      (closed : depthBehind 0 (beforeEnd tokens) = 0)
      (derives : DerivesAll forms (beforeEnd tokens)) :
      ComesTo tokens (.ok forms)

/-- A call that comes to the end has met a fault if lists are open. -/
theorem comesTo_atEnd {forms : List Form} (passes : Passes 0 (beforeEnd tokens))
    (ends : (endReached tokens).kind = .endOfInput)
    (derives : fault? (depthBehind 0 (beforeEnd tokens)) (endReached tokens) = none →
      DerivesAll forms (beforeEnd tokens)) :
    ComesTo tokens
      (match fault? (depthBehind 0 (beforeEnd tokens)) (endReached tokens) with
      | some fault => .error (.fault fault)
      | none => .ok forms) := by
  simp only [fault?, ends, if_true] at derives ⊢
  by_cases closed : depthBehind 0 (beforeEnd tokens) = 0
  · rw [if_pos closed] at derives ⊢
    exact .whole passes closed (derives rfl)
  · rw [if_neg closed]
    exact .unclosed passes closed

theorem readAll_comesTo
    (named : ∀ token ∈ tokens, token.kind.isAtom = true → token.text ≠ "") :
    ComesTo tokens (Form.readAll tokens) := by
  have start : Progress [] [] [] := .top .nil
  obtain ⟨reader, consumed, met, ran, called⟩ := consume_called named start none
  have derives : reader.fault = none → DerivesAll reader.forms (beforeEnd tokens) :=
    start.derivesAll ran
  rw [readAll_of_consume ran]
  have fault := called.fault
  rw [Option.or_none] at fault
  rw [fault] at derives ⊢
  have consumes : Consumes 0 tokens consumed reader.ahead met := called.consumes
  clear called fault ran
  generalize reader.ahead = ahead at consumes
  generalize reader.forms = forms at derives ⊢
  cases consumes with
  | @stop front _ token passes stops =>
    by_cases ends : token.kind = .endOfInput
    · have whole : beforeEnd (front ++ token :: ahead) = front := by
        rw [passes.beforeEnd_append, beforeEnd_end ahead ends, List.append_nil]
      have last : endReached (front ++ token :: ahead) = token := by
        rw [passes.endReached_append, endReached_end ahead ends]
      have out := @comesTo_atEnd (front ++ token :: ahead) forms
      rw [whole, last] at out
      rw [whole] at derives
      exact out passes ends derives
    · obtain ⟨cause, offends⟩ := Option.ne_none_iff_exists'.mp (stops.resolve_left ends)
      simp only [fault?, if_neg ends, offends, Option.map_some]
      exact .blamed rfl passes ends (blames_of_offence passes offends)
  | pastEnd passes =>
    have whole : beforeEnd tokens = tokens := by
      simpa using passes.beforeEnd_append []
    have last : endReached tokens = pastEnd := by
      simpa using passes.endReached_append []
    have out := @comesTo_atEnd tokens forms
    rw [whole, last] at out
    rw [whole] at derives
    exact out passes rfl derives

/-! ## One form -/

theorem token?_of_ofToken {form : Form} (read : Form.ofToken token = .ok form) :
    form.token? = some token := by
  revert read
  fun_cases Form.ofToken token
  all_goals
    intro read
    cases read
  all_goals rfl

/-- A form that is read starts with the first of the tokens it derives from. -/
theorem Derives.starts {form : Form} (derives : Derives form tokens) :
    ∃ start inside, tokens = start :: inside ∧ form.token? = some start := by
  cases derives with
  | @atom token _ atomic read => exact ⟨token, [], rfl, token?_of_ofToken read⟩
  | @list opener closer items opens closes each => exact ⟨opener, _, rfl, rfl⟩

/-- A second form that starts with a token stands behind the first one. -/
def SecondStarts (tokens : List Token) (first second : Form) (start : Token) : Prop :=
  ∃ front inside, Derives first front ∧ Derives second (start :: inside) ∧
    front ++ start :: inside <+: tokens

theorem DerivesAll.secondStarts {first second : Form} {others : List Form}
    (derives : DerivesAll (first :: second :: others) tokens) :
    ∃ start, second.token? = some start ∧ SecondStarts tokens first second start := by
  obtain ⟨items, forms, rfl, each⟩ := derives
  match items, forms with
  | (_, front) :: (_, behind) :: items, rfl =>
    have derivesFirst := each _ List.mem_cons_self
    have derivesSecond := each _ (List.mem_cons_of_mem _ List.mem_cons_self)
    obtain ⟨start, inside, rfl, token⟩ := derivesSecond.starts
    refine ⟨start, token, front, inside, derivesFirst, derivesSecond, items.flatMap Prod.snd, ?_⟩
    simp

theorem SecondStarts.token?_eq {first second : Form} {start : Token}
    (starts : SecondStarts tokens first second start) : second.token? = some start := by
  obtain ⟨front, inside, -, derives, -⟩ := starts
  obtain ⟨start', inside', same, token⟩ := derives.starts
  cases same
  exact token

/-- Where the end is marked last, no form is read exactly where all tokens mark the end. -/
theorem EndsLast.blank (ends : EndsLast tokens) (none : beforeEnd tokens = []) :
    ∀ token ∈ tokens, token.kind = .endOfInput := by
  cases tokens with
  | nil => exact nofun
  | cons first rest =>
    have marks : first.kind = .endOfInput := by
      apply Decidable.byContradiction
      intro goesOn
      rw [beforeEnd_cons rest goesOn] at none
      cases none
    have others := (List.pairwise_cons.mp ends).1
    exact List.forall_mem_cons.mpr ⟨marks, fun token member => others token member marks⟩

theorem readOne_blank (blank : ∀ token ∈ tokens, token.kind = .endOfInput) :
    Form.readOne tokens = .error (.fault (.reading .endOfInput none)) := by
  refine if_pos (List.all_eq_true.mpr fun token member => ?_)
  exact beq_iff_eq.mpr (blank token member)

/-- What reading a single form adds to reading all forms.  There must be a form, which is so unless
all tokens mark the end, and there must be no second one. -/
inductive Adds (tokens : List Token) : Except Stop (List Form) → Except Stop Form → Prop where
  | blank (blank : ∀ token ∈ tokens, token.kind = .endOfInput) :
      Adds tokens (.ok []) (.error (.fault (.reading .endOfInput none)))
  | fault {fault : Fault} (visible : ¬∀ token ∈ tokens, token.kind = .endOfInput)
      (other : fault.cause? ≠ some .endOfInput) :
      Adds tokens (.error (.fault fault)) (.error (.fault fault))
  | single {form : Form} (visible : ¬∀ token ∈ tokens, token.kind = .endOfInput) :
      Adds tokens (.ok [form]) (.ok form)
  | second {first second : Form} {others : List Form} {start : Token}
      (visible : ¬∀ token ∈ tokens, token.kind = .endOfInput)
      (starts : SecondStarts (beforeEnd tokens) first second start) :
      Adds tokens (.ok (first :: second :: others))
        (.error (.fault (.reading .unexpectedToken (some start))))

theorem ComesTo.fault_of_error {stop : Stop} (comes : ComesTo tokens (.error stop)) :
    ∃ fault, stop = .fault fault ∧ fault.cause? ≠ some .endOfInput := by
  cases comes with
  | blamed split passes goesOn blames =>
    refine ⟨_, rfl, ?_⟩
    cases blames <;> simp [Fault.cause?]
  | unclosed passes opened => exact ⟨_, rfl, by simp [Fault.cause?]⟩

theorem ComesTo.derives {forms : List Form} (comes : ComesTo tokens (.ok forms)) :
    DerivesAll forms (beforeEnd tokens) := by
  cases comes with
  | whole passes closed derives => exact derives

theorem readOne_adds (ends : EndsLast tokens) (comes : ComesTo tokens (Form.readAll tokens)) :
    Adds tokens (Form.readAll tokens) (Form.readOne tokens) := by
  by_cases blank : ∀ token ∈ tokens, token.kind = .endOfInput
  · have none : Form.readAll tokens = .ok [] :=
      DerivesAll.nil.readAll_eq fun token head => blank token (List.mem_of_mem_head? head)
    rw [none, readOne_blank blank]
    exact .blank blank
  · have some : ¬(tokens.all fun token => token.kind == .endOfInput) = true := by
      intro all
      exact blank fun token member => beq_iff_eq.mp (List.all_eq_true.mp all token member)
    rw [Form.readOne, if_neg some]
    generalize Form.readAll tokens = read at comes ⊢
    rcases read with stop | forms
    · obtain ⟨fault, rfl, other⟩ := comes.fault_of_error
      exact .fault blank other
    · rcases forms with _ | ⟨first, _ | ⟨second, others⟩⟩
      · have some : beforeEnd tokens ≠ [] := fun none => blank (ends.blank none)
        exact absurd rfl (Form.ne_nil_of_derivesAll comes.derives some)
      · exact .single blank
      · obtain ⟨start, token, starts⟩ := comes.derives.secondStarts
        change Adds tokens _ (.error (.fault (.reading .unexpectedToken second.token?)))
        rw [token]
        exact .second blank starts

section Adds

variable {all : Except Stop (List Form)} {one : Except Stop Form}

theorem Adds.blank_iff (adds : Adds tokens all one) :
    one = .error (.fault (.reading .endOfInput none)) ↔
      ∀ token ∈ tokens, token.kind = .endOfInput := by
  cases adds with
  | blank blank => exact ⟨fun _ => blank, fun _ => rfl⟩
  | fault visible other =>
    refine ⟨?_, fun blank => absurd blank visible⟩
    rintro ⟨⟩
    exact absurd rfl other
  | single visible => exact ⟨nofun, fun blank => absurd blank visible⟩
  | second visible starts => exact ⟨nofun, fun blank => absurd blank visible⟩

theorem Adds.second_iff (adds : Adds tokens all one) (start : Token) :
    ((∃ forms, all = .ok forms) ∧
        one = .error (.fault (.reading .unexpectedToken (some start)))) ↔
      ∃ first second others, all = .ok (first :: second :: others) ∧
        SecondStarts (beforeEnd tokens) first second start := by
  cases adds with
  | blank blank => exact ⟨nofun, nofun⟩
  | fault visible other => exact ⟨nofun, nofun⟩
  | single visible => exact ⟨nofun, nofun⟩
  | @second first second others start' visible starts =>
    constructor
    · rintro ⟨-, ⟨⟩⟩
      exact ⟨first, second, others, rfl, starts⟩
    · rintro ⟨_, _, _, ⟨⟩, starts'⟩
      cases starts.token?_eq.symm.trans starts'.token?_eq
      exact ⟨⟨_, rfl⟩, rfl⟩

end Adds

/-! ## Faults of reading -/

theorem Passes.not_firstHopeless {index : Nat} (passes : Passes 0 tokens) :
    ¬FirstHopeless tokens index token :=
  fun first => first.hopeless (passes.take _).promising

theorem ComesTo.blamed_iff {result : Except Stop (List Form)} (comes : ComesTo tokens result)
    (fault : Fault) :
    result = .error (.fault fault) ∧ fault.cause? ≠ some .unexpectedEnd ↔
      ∃ index token cause, FirstHopeless (beforeEnd tokens) index token ∧
        Blames ((beforeEnd tokens).take index) token cause ∧
        fault = .reading cause (some token) := by
  cases comes with
  | @blamed front ahead token cause split passes goesOn blames =>
    have whole : beforeEnd tokens = front ++ token :: beforeEnd ahead := by
      rw [split, passes.beforeEnd_append, beforeEnd_cons ahead goesOn]
    have first := firstHopeless_of_blames passes blames (beforeEnd ahead)
    rw [whole]
    constructor
    · rintro ⟨⟨⟩, -⟩
      refine ⟨front.length, token, cause, first, ?_, rfl⟩
      rwa [List.take_left]
    · rintro ⟨index, token', cause', first', blames', rfl⟩
      obtain ⟨rfl, rfl⟩ := first.unique first'
      rw [List.take_left] at blames'
      rw [blames.unique blames']
      exact ⟨rfl, blames'.cause_ne⟩
  | unclosed passes opened =>
    constructor
    · rintro ⟨⟨⟩, other⟩
      exact absurd rfl other
    · rintro ⟨index, token, cause, first, -⟩
      exact absurd first passes.not_firstHopeless
  | whole passes closed derives =>
    constructor
    · rintro ⟨⟨⟩, -⟩
    · rintro ⟨index, token, cause, first, -⟩
      exact absurd first passes.not_firstHopeless

theorem ComesTo.unclosed_iff {result : Except Stop (List Form)} (comes : ComesTo tokens result)
    (fault : Fault) :
    result = .error (.fault fault) ∧ fault.cause? = some .unexpectedEnd ↔
      (∃ rest, rest ≠ [] ∧ Acceptable 0 (beforeEnd tokens ++ rest)) ∧
        ¬Acceptable 0 (beforeEnd tokens) ∧
        fault = .reading .unexpectedEnd (some (endReached tokens)) := by
  have acceptable_iff (passes : Passes 0 (beforeEnd tokens)) :
      Acceptable 0 (beforeEnd tokens) ↔ depthBehind 0 (beforeEnd tokens) = 0 := by
    rw [← acceptable_nil, ← passes.acceptable_iff, List.append_nil]
  cases comes with
  | @blamed front ahead token cause split passes goesOn blames =>
    constructor
    · rintro ⟨⟨⟩, unexpected⟩
      exact absurd unexpected blames.cause_ne
    · rintro ⟨⟨rest, -, acceptable⟩, -⟩
      have promising : Promising 0 (beforeEnd tokens) := ⟨rest, acceptable⟩
      rw [split, passes.beforeEnd_append, beforeEnd_cons ahead goesOn] at promising
      exact absurd promising (not_promising_of_blames passes blames)
  | unclosed passes opened =>
    have unfinished : ¬Acceptable 0 (beforeEnd tokens) :=
      fun acceptable => opened ((acceptable_iff passes).mp acceptable)
    constructor
    · rintro ⟨⟨⟩, -⟩
      obtain ⟨rest, acceptable⟩ := passes.promising
      refine ⟨⟨rest, ?_, acceptable⟩, unfinished, rfl⟩
      rintro rfl
      rw [List.append_nil] at acceptable
      exact unfinished acceptable
    · rintro ⟨-, -, rfl⟩
      exact ⟨rfl, rfl⟩
  | whole passes closed derives =>
    constructor
    · rintro ⟨⟨⟩, -⟩
    · rintro ⟨-, unfinished, -⟩
      exact absurd ((acceptable_iff passes).mpr closed) unfinished

/-- Reading atoms with text fails at the first hopeless token and because of that token, or at the
end, where what was read begins a program but is none.  Where the end is marked last, reading a
single form fails besides only because there is no form, or because of the first token of a second
one. -/
theorem readAll_fails_first (tokens : List Token)
    (named : ∀ token ∈ tokens, token.kind.isAtom = true → token.text ≠ "") :
    (∀ fault, Form.readAll tokens = .error (.fault fault) ∧ fault.cause? ≠ some .unexpectedEnd ↔
      ∃ index token cause, FirstHopeless (beforeEnd tokens) index token ∧
        Blames ((beforeEnd tokens).take index) token cause ∧
        fault = .reading cause (some token)) ∧
    (∀ fault, Form.readAll tokens = .error (.fault fault) ∧ fault.cause? = some .unexpectedEnd ↔
      (∃ rest, rest ≠ [] ∧ Acceptable 0 (beforeEnd tokens ++ rest)) ∧
        ¬Acceptable 0 (beforeEnd tokens) ∧
        fault = .reading .unexpectedEnd (some (endReached tokens))) ∧
    (EndsLast tokens → Adds tokens (Form.readAll tokens) (Form.readOne tokens) ∧
      (Form.readOne tokens = .error (.fault (.reading .endOfInput none)) ↔
        ∀ token ∈ tokens, token.kind = .endOfInput) ∧
      ∀ start, (∃ forms, Form.readAll tokens = .ok forms) ∧
          Form.readOne tokens = .error (.fault (.reading .unexpectedToken (some start))) ↔
        ∃ first second others, Form.readAll tokens = .ok (first :: second :: others) ∧
          SecondStarts (beforeEnd tokens) first second start) := by
  have comes := readAll_comesTo named
  refine ⟨comes.blamed_iff, comes.unclosed_iff, fun ends => ?_⟩
  have adds := readOne_adds ends comes
  exact ⟨adds, adds.blank_iff, adds.second_iff⟩

/-- The tokens of `(+ 9223372036854775808))`: the literal is out of range, and the last parenthesis
is unmatched. -/
def outsizedLiteral : List Token :=
  [⟨.openList, "(", ⟨1, 1⟩⟩, ⟨.atom, "+", ⟨1, 2⟩⟩, ⟨.atom, "9223372036854775808", ⟨1, 4⟩⟩,
    ⟨.closeList, ")", ⟨1, 23⟩⟩, ⟨.closeList, ")", ⟨1, 24⟩⟩, Token.endAt ⟨1, 25⟩]

theorem readAll_fails_first_outsized_literal :
    (∀ token ∈ outsizedLiteral, token.kind.isAtom = true → token.text ≠ "") ∧
      EndsLast outsizedLiteral ∧
      (∃ index, FirstHopeless (beforeEnd outsizedLiteral) index
        ⟨.atom, "9223372036854775808", ⟨1, 4⟩⟩) ∧
      Adds outsizedLiteral
        (.error (.fault (.reading (.integerRange "9223372036854775808")
          (some ⟨.atom, "9223372036854775808", ⟨1, 4⟩⟩))))
        (Form.readOne outsizedLiteral) := by
  have named : ∀ token ∈ outsizedLiteral, token.kind.isAtom = true → token.text ≠ "" := by decide
  have ends : EndsLast outsizedLiteral := by
    unfold EndsLast
    decide
  obtain ⟨blamed, -, single⟩ := readAll_fails_first outsizedLiteral named
  obtain ⟨index, _, _, first, -, ⟨⟩⟩ := (blamed _).mp ⟨rfl, by decide⟩
  exact ⟨named, ends, ⟨index, first⟩, (single ends).1⟩

end MiniLisp.Reader
