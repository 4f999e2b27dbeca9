import MiniLisp.Proofs.Reader.Calls

/-!
# Reading goes on behind a fault

A reader may be called again and again, whatever the calls before met.  Each call goes on behind the
last one, inside the lists that are still open; the tokens that stopped a call leave no mark in the
forms, and the last fault that was met stays until another one replaces it.
-/

namespace MiniLisp.Reader

variable {depth : Nat} {token : Token} {tokens front : List Token}

/-- The reader after a number of calls. -/
def runs (reader : Reader) : (calls : Nat) → Except Stop Reader
  | 0 => .ok reader
  | calls + 1 => do (← runs reader calls).run

/-- Calls one after the other: the tokens they consumed together, those ahead of the next call, and
what each of them met. -/
inductive Calls (tokens : List Token) :
    (calls : Nat) → (consumed ahead : List Token) → List (Option Fault) → Prop where
  | none : Calls tokens 0 [] tokens []
  | next {calls : Nat} {before ahead consumed left : List Token} {met : List (Option Fault)}
      {fault : Option Fault} (earlier : Calls tokens calls before ahead met)
      (consumes : Consumes (depthBehind 0 before) ahead consumed left fault) :
      Calls tokens (calls + 1) (before ++ consumed) left (met ++ [fault])

/-- The open lists, from the outside in, are last elements of one another: behind the items that are
finished, newest first, stands the outermost of them, behind the items of this one the next. -/
inductive Spine : (finished : List Form) → List OpenList → (items : List Form) → Prop where
  | innermost {finished : List Form} : Spine finished [] finished.reverse
  | outer {finished items : List Form} {outermost : OpenList} {path : List OpenList}
      (inside : Spine outermost.items path items) :
      Spine finished (outermost :: path)
        (finished.reverse ++ [.list outermost.opener none items])

/-! ## The forms read so far -/

theorem spine_closeAround {path : List OpenList} {items : List Form} (finished : List Form)
    {innermost : OpenList} (inside : Spine innermost.items path items)
    (pending : List OpenList) :
    Spine finished (pending.reverse ++ innermost :: path)
      (closeAround (.list innermost.opener none items) finished pending) := by
  induction pending generalizing innermost path items with
  | nil => simpa [closeAround] using inside.outer
  | cons outer pending ih =>
    have around : Spine outer.items (innermost :: path) _ := inside.outer
    have whole := ih around
    simpa [closeAround, OpenList.close] using whole

/-- The open lists are the path of last elements of the forms.  That is so for every reader
whatever, by how it is represented: a list that is open is kept apart, and only its forms show it
in its place. -/
theorem spine_forms (reader : Reader) :
    Spine reader.finished reader.pending.reverse reader.forms := by
  obtain ⟨ahead, pending, finished, fault⟩ := reader
  cases pending with
  | nil => exact .innermost
  | cons innermost outer =>
    have inside : Spine innermost.items [] innermost.items.reverse := .innermost
    have whole := spine_closeAround finished inside outer
    simpa [forms, OpenList.close] using whole

/-- Closing the innermost open list changes nothing in the forms. -/
theorem forms_close (ahead : List Token) (innermost : OpenList) (pending : List OpenList)
    (finished : List Form) (fault : Option Fault) :
    forms ⟨ahead, (push innermost.close pending finished).1,
        (push innermost.close pending finished).2, fault⟩ =
      forms ⟨ahead, innermost :: pending, finished, fault⟩ := by
  cases pending <;> rfl

/-- The forms read so far derive from what was read once the open lists are closed behind it. -/
theorem Progress.derivesAll_closers {reader : Reader} {read closers : List Token}
    (progress : Progress reader.pending reader.finished read)
    (closing : ∀ closer ∈ closers, closer.kind = .closeList)
    (count : closers.length = reader.pending.length) :
    DerivesAll reader.forms (read ++ closers) := by
  induction closers generalizing reader read with
  | nil =>
    obtain ⟨ahead, pending, finished, fault⟩ := reader
    cases List.length_eq_zero_iff.mp count.symm
    cases progress with
    | top derives => simpa [forms] using derives
  | cons closer closers ih =>
    obtain ⟨ahead, pending, finished, fault⟩ := reader
    obtain ⟨closes, others⟩ := List.forall_mem_cons.mp closing
    cases pending with
    | nil => cases count
    | cons innermost outer =>
      have closed := progress.closeList closes
      have derives := @ih ⟨ahead, _, _, fault⟩ _ closed others
        ((Nat.succ.inj count).trans (push_length ..).symm)
      rw [forms_close] at derives
      simpa using derives

/-- Tokens derive at most one sequence of forms. -/
theorem DerivesAll.unique {forms forms' : List Form} (derives : DerivesAll forms tokens)
    (derives' : DerivesAll forms' tokens) : forms = forms' := by
  have read := @DerivesAll.readAll_eq forms tokens [] derives nofun
  have read' := @DerivesAll.readAll_eq forms' tokens [] derives' nofun
  exact Except.ok.inj (read.symm.trans read')

/-! ## One call after the other -/

theorem depthBehind_append (depth : Nat) (front rest : List Token) :
    depthBehind depth (front ++ rest) = depthBehind (depthBehind depth front) rest := by
  induction front generalizing depth with
  | nil => rfl
  | cons token front ih => exact ih _

theorem kept_append (depth : Nat) (front rest : List Token) :
    kept depth (front ++ rest) = kept depth front ++ kept (depthBehind depth front) rest := by
  induction front generalizing depth with
  | nil => rfl
  | cons token front ih =>
    simp only [List.cons_append, kept, depthBehind]
    split
    · exact ih _
    · rw [ih, List.cons_append]

theorem Consumes.split {ahead consumed left : List Token} {met : Option Fault}
    (consumes : Consumes depth ahead consumed left met) : consumed ++ left = ahead := by
  cases consumes with
  | stop => simp
  | pastEnd => simp

theorem Calls.split {calls : Nat} {consumed ahead : List Token} {met : List (Option Fault)}
    (called : Calls tokens calls consumed ahead met) : consumed ++ ahead = tokens := by
  induction called with
  | none => rfl
  | next _ consumes ih => rw [List.append_assoc, consumes.split, ih]

/-- The fault that a call returns is the last one that was met. -/
theorem getLast?_met (met : List (Option Fault)) (fault : Option Fault) :
    ((met ++ [fault]).filterMap id).getLast? = fault.or (met.filterMap id).getLast? := by
  cases fault <;> simp

/-- What holds of a reader between two calls. -/
structure Resumes (tokens : List Token) (calls : Nat) (reader : Reader) (consumed : List Token)
    (met : List (Option Fault)) : Prop where
  called : Calls tokens calls consumed reader.ahead met
  level : reader.pending.length = depthBehind 0 consumed
  progress : Progress reader.pending reader.finished (kept 0 consumed)
  fault : reader.fault = (met.filterMap id).getLast?

theorem Resumes.run {calls : Nat} {reader : Reader} {consumed : List Token}
    {met : List (Option Fault)}
    (named : ∀ token ∈ tokens, token.kind.isAtom = true → token.text ≠ "")
    (resumes : Resumes tokens calls reader consumed met) :
    ∃ reader' consumed' met', reader.run = .ok reader' ∧
      Resumes tokens (calls + 1) reader' consumed' met' := by
  have ahead : ∀ token ∈ reader.ahead, token.kind.isAtom = true → token.text ≠ "" := by
    intro token member
    apply named token
    rw [← resumes.called.split]
    exact List.mem_append_right _ member
  obtain ⟨reader', now, fault, ran, called⟩ :=
    consume_called ahead resumes.progress reader.fault
  have level := resumes.level
  rw [level] at called
  refine ⟨reader', consumed ++ now, met ++ [fault], ran, ?_, ?_, ?_, ?_⟩
  · exact .next resumes.called called.consumes
  · rw [called.level, depthBehind_append]
  · rw [kept_append]
    exact called.progress
  · rw [called.fault, getLast?_met, resumes.fault]

theorem runs_resumes (named : ∀ token ∈ tokens, token.kind.isAtom = true → token.text ≠ "")
    (calls : Nat) :
    ∃ reader consumed met, runs (ofTokens tokens) calls = .ok reader ∧
      Resumes tokens calls reader consumed met := by
  induction calls with
  | zero => exact ⟨ofTokens tokens, [], [], rfl, .none, rfl, .top .nil, rfl⟩
  | succ calls ih =>
    obtain ⟨reader, consumed, met, ran, resumes⟩ := ih
    obtain ⟨reader', consumed', met', ran', resumes'⟩ := resumes.run named
    refine ⟨reader', consumed', met', ?_, resumes'⟩
    rw [runs, ran]
    exact ran'

/-- Atoms with text can be read in any number of calls.  Each call consumes the tokens up to and
including the next one at which it stops; as many lists are open as these tokens leave open, and
they are the path of last elements, as in every reader; the forms are those of the consumed tokens
that stopped no call, with the open lists closed behind them; and what a call returns is the last
fault that was met, if any was. -/
theorem runs_resume (tokens : List Token)
    (named : ∀ token ∈ tokens, token.kind.isAtom = true → token.text ≠ "") (calls : Nat) :
    ∃ reader consumed met, runs (ofTokens tokens) calls = .ok reader ∧
      Calls tokens calls consumed reader.ahead met ∧ consumed ++ reader.ahead = tokens ∧
      reader.pending.length = depthBehind 0 consumed ∧
      Spine reader.finished reader.pending.reverse reader.forms ∧
      (∀ closers, (∀ closer ∈ closers, closer.kind = .closeList) →
        closers.length = reader.pending.length →
        ∀ forms, DerivesAll forms (kept 0 consumed ++ closers) ↔ forms = reader.forms) ∧
      reader.fault = (met.filterMap id).getLast? := by
  obtain ⟨reader, consumed, met, ran, resumes⟩ := runs_resumes named calls
  refine ⟨reader, consumed, met, ran, resumes.called, resumes.called.split, resumes.level,
    spine_forms reader, ?_, resumes.fault⟩
  intro closers closing count forms
  have derives := resumes.progress.derivesAll_closers closing count
  constructor
  · exact fun derives' => derives'.unique derives
  · rintro rfl
    exact derives

/-- The tokens of `) (f` and, behind the end, of a literal that is out of range and of `7`. -/
def brokenCall : List Token :=
  [⟨.closeList, ")", ⟨1, 1⟩⟩, ⟨.openList, "(", ⟨1, 3⟩⟩, ⟨.atom, "f", ⟨1, 4⟩⟩, Token.endAt ⟨1, 5⟩,
    ⟨.atom, "9223372036854775808", ⟨0, 0⟩⟩, ⟨.atom, "7", ⟨0, 0⟩⟩]

theorem runs_resume_broken_call :
    (∀ token ∈ brokenCall, token.kind.isAtom = true → token.text ≠ "") ∧
      ∃ reader, runs (ofTokens brokenCall) 4 = .ok reader ∧
        reader.fault = some (.reading .unexpectedEnd (some pastEnd)) ∧
        DerivesAll reader.forms
          [⟨.openList, "(", ⟨1, 3⟩⟩, ⟨.atom, "f", ⟨1, 4⟩⟩, ⟨.atom, "7", ⟨0, 0⟩⟩,
            ⟨.closeList, ")", ⟨0, 0⟩⟩] := by
  have named : ∀ token ∈ brokenCall, token.kind.isAtom = true → token.text ≠ "" := by decide
  obtain ⟨reader, consumed, met, ran, -, split, -, -, derives, -⟩ := runs_resume brokenCall named 4
  refine ⟨named, reader, ran, ?_⟩
  cases ran
  cases (List.append_nil consumed).symm.trans split
  exact ⟨rfl, (derives [⟨.closeList, ")", ⟨0, 0⟩⟩] (by decide) rfl _).mpr rfl⟩

end MiniLisp.Reader
