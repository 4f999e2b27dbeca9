import MiniLisp.Proofs.Reader.Faults

/-!
# Completing a program

Tokens are promising if a program can begin with them.  Reading stops at the first token that is
not, because of that token, and whatever else is read can be completed: it is enough to close the
lists that are still open.
-/

namespace MiniLisp.Reader

variable {depth : Nat} {token : Token} {tokens closers : List Token}

/-- A program can go on with the tokens where `depth` lists are open. -/
def Promising (depth : Nat) (tokens : List Token) : Prop :=
  ∃ rest, Acceptable depth (tokens ++ rest)

/-- What can be wrong with a token: it cannot stand where it does, or its digits leave the range of
integers. -/
inductive Offence : Fault → Prop where
  | token : Offence .unexpectedToken
  | literal (text : String) : Offence (.integerRange text)

/-- Closing parentheses, one for each open list, complete a program. -/
theorem acceptable_closers (closing : ∀ token ∈ closers, token.kind = .closeList)
    (count : closers.length = depth) : Acceptable depth closers := by
  induction closers generalizing depth with
  | nil => exact acceptable_nil.mpr count.symm
  | cons closer closers ih =>
    obtain ⟨closes, others⟩ := List.forall_mem_cons.mp closing
    have shift : depth + openings [closer] = closers.length + closings [closer] := by
      rw [← count]
      simp [openings, closings, closes]
    exact (acceptable_cons (.inr (.inl closes)) shift).mpr (ih others rfl)

theorem promising_cons {depth' : Nat} (readable : Readable token)
    (shift : depth + openings [token] = depth' + closings [token]) :
    Promising depth (token :: tokens) ↔ Promising depth' tokens :=
  exists_congr fun _ => acceptable_cons readable shift

theorem Promising.readable (promising : Promising depth (token :: tokens)) : Readable token := by
  obtain ⟨rest, acceptable⟩ := promising
  exact acceptable.readable token List.mem_cons_self

theorem not_promising_of_unopened (closes : token.kind = .closeList) :
    ¬Promising 0 (token :: tokens) := by
  rintro ⟨rest, acceptable⟩
  have unopened := acceptable.nested [token] (by simp)
  simp [closings, openings, closes] at unopened

theorem ofToken_offence {cause : Fault} (atomic : token.kind.isAtom = true)
    (failed : Form.ofToken token = .error (.fault cause)) : Offence cause := by
  revert failed
  fun_cases Form.ofToken token
  all_goals
    intro failed
    cases failed
  case case4 => exact .literal _
  case case6 notAtomic => exact absurd atomic notAtomic

/-- Reading stops in front of the end, with lists open that closing parentheses complete, or it
stops at a token with which no program can go on. -/
inductive Stops (depth : Nat) (tokens : List Token) : Reader → Prop where
  | atEnd {token : Token} {ahead : List Token} {pending : List OpenList} {finished : List Form}
      (completed : ∀ closers : List Token, (∀ closer ∈ closers, closer.kind = .closeList) →
        closers.length = pending.length → Acceptable depth (tokens ++ closers)) :
      Stops depth tokens (stopAtEnd token ahead pending finished none)
  | atToken {cause : Fault} {token : Token} {ahead : List Token} {pending : List OpenList}
      {finished : List Form} (offence : Offence cause) (hopeless : ¬Promising depth tokens) :
      Stops depth tokens (stopAt cause token ahead pending finished)

/-- A token that may stand where it does moves what is to be shown to the tokens behind it. -/
theorem Stops.cons {depth' : Nat} {reader : Reader} (readable : Readable token)
    (shift : depth + openings [token] = depth' + closings [token])
    (stops : Stops depth' tokens reader) : Stops depth (token :: tokens) reader := by
  cases stops with
  | atEnd completed =>
    apply atEnd
    intro closers closing count
    exact (acceptable_cons readable shift).mpr (completed closers closing count)
  | atToken offence hopeless =>
    apply atToken offence
    rwa [promising_cons readable shift]

theorem stops_atEnd (token : Token) (ahead : List Token) (pending : List OpenList)
    (finished : List Form) :
    Stops pending.length [] (stopAtEnd token ahead pending finished none) :=
  .atEnd fun _ closing count => acceptable_closers closing count

theorem consume_stops (named : ∀ token ∈ tokens, token.kind.isAtom = true → token.text ≠ "")
    (pending : List OpenList) (finished : List Form) :
    ∃ reader, consume pending finished none tokens = .ok reader ∧
      Stops pending.length (beforeEnd tokens) reader := by
  induction tokens generalizing pending finished with
  | nil => exact ⟨_, rfl, stops_atEnd pastEnd [] pending finished⟩
  | cons token ahead ih =>
    have named' := fun other member => named other (List.mem_cons_of_mem token member)
    cases kind : token.kind with
    | endOfInput =>
      rw [consume_end kind, beforeEnd_end ahead kind]
      exact ⟨_, rfl, stops_atEnd token ahead pending finished⟩
    | openList =>
      rw [consume_open kind, beforeEnd_cons ahead (by simp [kind])]
      obtain ⟨reader, ran, stops⟩ := ih named' (⟨token, []⟩ :: pending) finished
      refine ⟨reader, ran, stops.cons (.inl kind) ?_⟩
      simp [openings, closings, kind]
    | closeList =>
      rw [beforeEnd_cons ahead (by simp [kind])]
      cases pending with
      | nil =>
        rw [consume_close_top kind]
        exact ⟨_, rfl, .atToken .token (not_promising_of_unopened kind)⟩
      | cons innermost outer =>
        rw [consume_close kind]
        obtain ⟨reader, ran, stops⟩ := ih named' (push innermost.close outer finished).1
          (push innermost.close outer finished).2
        rw [push_length] at stops
        refine ⟨reader, ran, stops.cons (.inr (.inl kind)) ?_⟩
        simp [openings, closings, kind]
    | invalid =>
      rw [consume_invalid kind, beforeEnd_cons ahead (by simp [kind])]
      refine ⟨_, rfl, .atToken .token fun promising => ?_⟩
      have readable := promising.readable
      simp [Readable, kind, TokenKind.isAtom] at readable
    | atom | string =>
      have atomic : token.kind.isAtom = true := by rw [kind]; rfl
      rw [consume_atom atomic, beforeEnd_cons ahead (by simp [kind])]
      rcases ofToken_cases atomic (named token List.mem_cons_self atomic) with
        ⟨readable, form, read⟩ | ⟨unreadable, cause, failed⟩
      · rw [read]
        obtain ⟨reader, ran, stops⟩ := ih named' (push form pending finished).1
          (push form pending finished).2
        rw [push_length] at stops
        refine ⟨reader, ran, stops.cons readable ?_⟩
        simp [openings, closings, kind]
      · rw [failed]
        exact ⟨_, rfl, .atToken (ofToken_offence atomic failed) fun promising =>
          unreadable promising.readable⟩

/-! ## Derivations that break off -/

theorem openings_append (left right : List Token) :
    openings (left ++ right) = openings left + openings right :=
  List.countP_append

theorem closings_append (left right : List Token) :
    closings (left ++ right) = closings left + closings right :=
  List.countP_append

/-- In front of tokens that can be read, others may stand that leave no list open. -/
theorem Acceptable.append {front : List Token} (before : Acceptable 0 front)
    (behind : Acceptable depth tokens) : Acceptable depth (front ++ tokens) := by
  constructor
  · intro token member
    rcases List.mem_append.mp member with first | second
    · exact before.readable token first
    · exact behind.readable token second
  · intro part inside
    obtain ⟨rest, joined⟩ := inside
    rcases List.append_eq_append_iff.mp joined with ⟨middle, whole, -⟩ | ⟨middle, whole, split⟩
    · have nested := before.nested part ⟨middle, whole.symm⟩
      omega
    · have nested := behind.nested middle ⟨rest, split.symm⟩
      have closed := before.closed
      rw [whole, openings_append, closings_append]
      omega
  · have first := before.closed
    have second := behind.closed
    rw [openings_append, closings_append]
    omega

theorem readable_of_ofToken {form : Form} (atomic : token.kind.isAtom = true)
    (read : Form.ofToken token = .ok form) : Readable token := by
  have named : token.text ≠ "" := by
    intro empty
    simp [Form.ofToken, atomic, empty] at read
  rcases ofToken_cases atomic named with ⟨readable, -⟩ | ⟨-, cause, failed⟩
  · exact readable
  · cases failed.symm.trans read

theorem acceptable_items {items : List (Form × List Token)}
    (each : ∀ item ∈ items, Acceptable 0 item.2) : Acceptable 0 (items.flatMap Prod.snd) := by
  induction items with
  | nil => exact acceptable_nil.mpr rfl
  | cons item items ih =>
    obtain ⟨first, others⟩ := List.forall_mem_cons.mp each
    exact first.append (ih others)

/-- Tokens from which a form derives can be read. -/
theorem Derives.acceptable {form : Form} (derives : Derives form tokens) :
    Acceptable 0 tokens := by
  induction derives with
  | @atom token form atomic read =>
    have shift : 0 + openings [token] = 0 + closings [token] := by
      cases kind : token.kind <;> simp_all [openings, closings, TokenKind.isAtom]
    exact (acceptable_cons (readable_of_ofToken atomic read) shift).mpr (acceptable_nil.mpr rfl)
  | @list opener closer items opens closes each ih =>
    have shift : 0 + openings [opener] = 1 + closings [opener] := by
      simp [openings, closings, opens]
    have closed : Acceptable 1 [closer] := acceptable_closers (by simpa using closes) rfl
    exact (acceptable_cons (.inl opens) shift).mpr ((acceptable_items ih).append closed)

/-- A form that breaks off behind its first token leaves a list open. -/
theorem Derives.open_of_front {form : Form} {front back : List Token}
    (derives : Derives form (front ++ back)) (started : front ≠ []) (unfinished : back ≠ []) :
    closings front < openings front := by
  generalize whole : front ++ back = tokens at derives
  cases derives with
  | atom =>
    have length := congrArg List.length whole
    have first := List.length_pos_iff.mpr started
    have second := List.length_pos_iff.mpr unfinished
    simp only [List.length_append, List.length_singleton] at length
    omega
  | @list opener closer items opens closes each =>
    have inside : front <+: opener :: items.flatMap Prod.snd := by
      refine ⟨back.dropLast, ?_⟩
      rw [← List.dropLast_append_of_ne_nil unfinished, whole, ← List.cons_append,
        List.dropLast_concat]
    rcases List.prefix_cons_iff.mp inside with empty | ⟨behind, rfl, inner⟩
    · exact absurd empty started
    · have nested := (acceptable_items fun item member => (each item member).acceptable).nested
        behind inner
      have shift : openings [opener] = 1 + closings [opener] := by
        simp [openings, closings, opens]
      rw [← List.singleton_append, openings_append, closings_append]
      omega

end MiniLisp.Reader
