import MiniLisp.Proofs.Reader.Completion

/-!
# Calls of a reader

A call of a reader goes on up to and including the first token that marks the end or offends.
Whether a token offends depends on the token and on the number of open lists alone, so what a call
consumes and which fault it meets is said here of the tokens, without any form.  What a call does to
the forms is one step for each token that does not stop it.
-/

namespace MiniLisp.Reader

variable {depth : Nat} {token : Token} {tokens front : List Token}

/-- Why a token offends where `depth` lists are open, if it does. -/
def offence? (depth : Nat) (token : Token) : Option Fault :=
  match token.kind with
  | .closeList => if depth = 0 then some .unexpectedToken else none
  | .invalid => some .unexpectedToken
  | .atom | .string =>
    if token.text.toList.all Char.isDigit ∧
        0x7fffffffffffffff < Nat.ofDigitChars 10 token.text.toList 0 then
      some (.integerRange token.text)
    else none
  | .openList | .endOfInput => none

/-- Reading stops behind a token that marks the end or offends. -/
def StopsAt (depth : Nat) (token : Token) : Prop :=
  token.kind = .endOfInput ∨ offence? depth token ≠ none

instance : Decidable (StopsAt depth token) :=
  inferInstanceAs (Decidable (_ ∨ _))

theorem goesOn_iff :
    ¬StopsAt depth token ↔ token.kind ≠ .endOfInput ∧ offence? depth token = none := by
  simp only [StopsAt, not_or, ne_eq, Decidable.not_not]

/-- The fault that reading meets at a token where it stops.  The end is one if lists are open. -/
def fault? (depth : Nat) (token : Token) : Option Fault :=
  if token.kind = .endOfInput then
    if depth = 0 then none else some (.reading .unexpectedEnd token)
  else (offence? depth token).map fun cause => .reading cause token

/-- The number of open lists behind a token. -/
def levelBehind (depth : Nat) (token : Token) : Nat :=
  match token.kind with
  | .openList => depth + 1
  | .closeList => depth - 1
  | .atom | .string | .invalid | .endOfInput => depth

/-- The number of open lists behind several tokens. -/
def depthBehind (depth : Nat) : List Token → Nat
  | [] => depth
  | token :: rest => depthBehind (levelBehind depth token) rest

/-- Reading stops at none of the tokens. -/
def Passes (depth : Nat) : List Token → Prop
  | [] => True
  | token :: rest => ¬StopsAt depth token ∧ Passes (levelBehind depth token) rest

/-- The tokens that are left when those at which reading stops are deleted. -/
def kept (depth : Nat) : List Token → List Token
  | [] => []
  | token :: rest =>
    if StopsAt depth token then kept (levelBehind depth token) rest
    else token :: kept (levelBehind depth token) rest

/-- One call where `depth` lists are open: the tokens ahead, those it consumes, those it leaves, and
the fault it meets.  Where no token stops it, it comes to the end that lies behind all tokens. -/
inductive Consumes (depth : Nat) : List Token → List Token → List Token → Option Fault → Prop where
  | stop {front ahead : List Token} {token : Token} (passes : Passes depth front)
      (stops : StopsAt (depthBehind depth front) token) :
      Consumes depth (front ++ token :: ahead) (front ++ [token]) ahead
        (fault? (depthBehind depth front) token)
  | pastEnd {front : List Token} (passes : Passes depth front) :
      Consumes depth front front [] (fault? (depthBehind depth front) pastEnd)

theorem Consumes.cons {ahead consumed left : List Token} {met : Option Fault}
    (goesOn : ¬StopsAt depth token)
    (consumes : Consumes (levelBehind depth token) ahead consumed left met) :
    Consumes depth (token :: ahead) (token :: consumed) left met := by
  cases consumes with
  | @stop front _ last passes stops =>
    exact @stop depth (token :: front) left last ⟨goesOn, passes⟩ stops
  | pastEnd passes => exact @pastEnd depth (token :: ahead) ⟨goesOn, passes⟩

/-! ## One token -/

/-- What reading makes of a token that does not stop it. -/
def absorb (token : Token) (state : List OpenList × List Form) : List OpenList × List Form :=
  match token.kind, state with
  | .openList, (pending, finished) => (⟨token, []⟩ :: pending, finished)
  | .closeList, (innermost :: outer, finished) => push innermost.close outer finished
  | .atom, (pending, finished) | .string, (pending, finished) =>
    match Form.ofToken token with
    | .ok form => push form pending finished
    | .error _ => (pending, finished)
  | _, state => state

theorem absorb_atom {form : Form} (atomic : token.kind.isAtom = true)
    (read : Form.ofToken token = .ok form) (pending : List OpenList) (finished : List Form) :
    absorb token (pending, finished) = push form pending finished := by
  obtain ⟨kind, text, position⟩ := token
  cases kind with
  | atom | string => simp only [absorb, read]
  | invalid | openList | closeList | endOfInput => cases atomic

theorem offence?_atom (atomic : token.kind.isAtom = true) (depth : Nat) :
    offence? depth token =
      if token.text.toList.all Char.isDigit ∧
          0x7fffffffffffffff < Nat.ofDigitChars 10 token.text.toList 0 then
        some (.integerRange token.text)
      else none := by
  obtain ⟨kind, text, position⟩ := token
  cases kind with
  | atom | string => rfl
  | invalid | openList | closeList | endOfInput => cases atomic

/-- An atom with text stands for a form, or it offends because its digits leave the range. -/
theorem ofToken_eq (atomic : token.kind.isAtom = true) (named : token.text ≠ "") (depth : Nat) :
    (offence? depth token = none ∧ ∃ form, Form.ofToken token = .ok form) ∨
      ∃ cause, offence? depth token = some cause ∧ Form.ofToken token = .error (.fault cause) := by
  rw [offence?_atom atomic]
  fun_cases Form.ofToken token with
  | case1 _ empty => exact absurd (String.toList_eq_nil_iff.mp empty) named
  | case2 _ rest text =>
    refine .inl ⟨if_neg ?_, _, rfl⟩
    rw [text]
    rintro ⟨digits, -⟩
    cases digits
  | case3 _ first rest text _ digits value inRange =>
    refine .inl ⟨if_neg ?_, _, rfl⟩
    rw [text]
    exact fun large => Nat.not_lt.mpr inRange large.2
  | case4 _ first rest text _ digits value outOfRange =>
    refine .inr ⟨_, if_pos ?_, rfl⟩
    rw [text]
    exact ⟨digits, Nat.not_le.mp outOfRange⟩
  | case5 _ first rest text _ notDigits =>
    refine .inl ⟨if_neg ?_, _, rfl⟩
    rw [text]
    exact fun large => notDigits large.1
  | case6 notAtomic => exact absurd atomic notAtomic

/-- A token stops the reader, or it is absorbed. -/
theorem consume_cons (named : token.kind.isAtom = true → token.text ≠ "") (pending : List OpenList)
    (finished : List Form) (fault : Option Fault) (ahead : List Token) :
    consume pending finished fault (token :: ahead) =
      if StopsAt pending.length token then
        .ok ⟨ahead, pending, finished, (fault? pending.length token).or fault⟩
      else
        consume (absorb token (pending, finished)).1 (absorb token (pending, finished)).2 fault
          ahead := by
  cases kind : token.kind with
  | endOfInput =>
    rw [consume_end kind, if_pos (.inl kind)]
    cases pending <;> simp [stopAtEnd, stopAt, fault?, kind]
  | openList =>
    have goesOn : ¬StopsAt pending.length token := by simp [StopsAt, offence?, kind]
    rw [consume_open kind, if_neg goesOn]
    simp [absorb, kind]
  | closeList =>
    cases pending with
    | nil =>
      have stops : StopsAt 0 token := by simp [StopsAt, offence?, kind]
      rw [consume_close_top kind, List.length_nil, if_pos stops]
      simp [stopAt, fault?, offence?, kind]
    | cons innermost outer =>
      have goesOn : ¬StopsAt (innermost :: outer).length token := by
        simp [StopsAt, offence?, kind]
      rw [consume_close kind, if_neg goesOn]
      simp [absorb, kind]
  | invalid =>
    have stops : StopsAt pending.length token := by simp [StopsAt, offence?, kind]
    rw [consume_invalid kind, if_pos stops]
    simp [stopAt, fault?, offence?, kind]
  | atom | string =>
    have atomic : token.kind.isAtom = true := by rw [kind]; rfl
    rw [consume_atom atomic]
    rcases ofToken_eq atomic (named atomic) pending.length with
      ⟨none, form, read⟩ | ⟨cause, offends, failed⟩
    · have goesOn : ¬StopsAt pending.length token := by simp [StopsAt, none, kind]
      rw [read, if_neg goesOn, absorb_atom atomic read]
    · have stops : StopsAt pending.length token := by simp [StopsAt, offends]
      rw [failed, if_pos stops]
      simp [stopAt, fault?, offends, kind]

theorem length_absorb (token : Token) (pending : List OpenList) (finished : List Form) :
    (absorb token (pending, finished)).1.length = levelBehind pending.length token := by
  cases kind : token.kind with
  | openList | invalid | endOfInput => simp [absorb, levelBehind, kind]
  | closeList => cases pending <;> simp [absorb, levelBehind, kind, push_length]
  | atom | string =>
    simp only [absorb, levelBehind, kind]
    split
    · exact push_length ..
    · rfl

/-- A token that does not stop the reader is derived along with those before it. -/
theorem Progress.absorb {pending : List OpenList} {finished : List Form} {read : List Token}
    (progress : Progress pending finished read)
    (named : token.kind.isAtom = true → token.text ≠ "")
    (goesOn : ¬StopsAt pending.length token) :
    Progress (absorb token (pending, finished)).1 (absorb token (pending, finished)).2
      (read ++ [token]) := by
  cases kind : token.kind with
  | openList => simpa [Reader.absorb, kind] using progress.openList kind
  | closeList =>
    cases pending with
    | nil => exact absurd (.inr (by simp [offence?, kind])) goesOn
    | cons innermost outer => simpa [Reader.absorb, kind] using progress.closeList kind
  | invalid => exact absurd (.inr (by simp [offence?, kind])) goesOn
  | endOfInput => exact absurd (.inl kind) goesOn
  | atom | string =>
    have atomic : token.kind.isAtom = true := by rw [kind]; rfl
    rcases ofToken_eq atomic (named atomic) pending.length with
      ⟨-, form, read⟩ | ⟨cause, offends, -⟩
    · rw [absorb_atom atomic read]
      exact progress.push (.atom atomic read)
    · exact absurd (.inr (by simp [offends])) goesOn

/-! ## One call -/

/-- What a call comes to: it consumes tokens as it should, remembers the fault it met, and its open
lists and forms are what the tokens derive that it kept. -/
structure Called (depth : Nat) (fault : Option Fault) (read ahead : List Token) (reader : Reader)
    (consumed : List Token) (met : Option Fault) : Prop where
  consumes : Consumes depth ahead consumed reader.ahead met
  fault : reader.fault = met.or fault
  level : reader.pending.length = depthBehind depth consumed
  progress : Progress reader.pending reader.finished (read ++ kept depth consumed)

theorem consume_called (named : ∀ token ∈ tokens, token.kind.isAtom = true → token.text ≠ "")
    {pending : List OpenList} {finished : List Form} {read : List Token}
    (progress : Progress pending finished read) (fault : Option Fault) :
    ∃ reader consumed met, consume pending finished fault tokens = .ok reader ∧
      Called pending.length fault read tokens reader consumed met := by
  induction tokens generalizing pending finished read with
  | nil =>
    refine ⟨_, [], fault? pending.length pastEnd, rfl, ?_⟩
    have stopped : stopAtEnd pastEnd [] pending finished fault =
        ⟨[], pending, finished, (fault? pending.length pastEnd).or fault⟩ := by
      cases pending <;> rfl
    rw [stopped]
    exact ⟨@Consumes.pastEnd _ [] trivial, rfl, rfl, by simpa [kept] using progress⟩
  | cons token ahead ih =>
    have namedHead := named token List.mem_cons_self
    rw [consume_cons namedHead]
    by_cases stops : StopsAt pending.length token
    · rw [if_pos stops]
      refine ⟨_, [token], _, rfl, @Consumes.stop _ [] ahead token trivial stops, rfl, ?_, ?_⟩
      · have same : levelBehind pending.length token = pending.length := by
          rcases stops with ends | offends
          · simp [levelBehind, ends]
          · revert offends
            cases kind : token.kind <;> simp_all [offence?, levelBehind]
        simp [depthBehind, same]
      · simpa [kept, stops] using progress
    · rw [if_neg stops]
      have namedTail := fun other member => named other (List.mem_cons_of_mem token member)
      obtain ⟨reader, consumed, met, ran, called⟩ := ih namedTail (progress.absorb namedHead stops)
      rw [length_absorb] at called
      refine ⟨reader, token :: consumed, met, ran, called.consumes.cons stops, called.fault,
        called.level, ?_⟩
      simpa [kept, stops] using called.progress

end MiniLisp.Reader
