import Mathlib.Data.List.Induction
import MiniLisp.Proofs.Reader.Detection

/-!
# Where reading has no answer

A single form is asked for in vain in two cases.  An atom without text is no form, and reading comes
to nothing where it reaches one; but it reaches none behind the end or behind a token that offends.
Tokens of which the first one marks the end hold no form either, which goes unnoticed if others
follow that do not mark the end.  In all other cases there is a form or a fault of reading.
-/

namespace MiniLisp.Reader

variable {depth : Nat} {token : Token} {tokens front : List Token}

/-- An atom without text. -/
def Nameless (token : Token) : Prop :=
  token.kind.isAtom = true ∧ token.text = ""

/-- Nothing keeps a reader from getting past some tokens: none of them marks the end, and none is to
blame for anything behind those in front of it. -/
structure Unhindered (tokens : List Token) : Prop where
  goesOn : ∀ token ∈ tokens, token.kind ≠ .endOfInput
  blameless : ∀ before token after cause, tokens = before ++ token :: after →
    ¬Blames before token cause

/-- An atom without text stands in front of the end and of all tokens that offend. -/
def ReachesNameless (tokens : List Token) : Prop :=
  ∃ front token ahead, tokens = front ++ token :: ahead ∧ Nameless token ∧ Unhindered front

/-- The first token marks the end, and some token behind it does not. -/
def EndsFirst (tokens : List Token) : Prop :=
  ∃ first rest, tokens = first :: rest ∧ first.kind = .endOfInput ∧
    ∃ token ∈ rest, token.kind ≠ .endOfInput

/-! ## Getting past tokens -/

theorem Passes.goesOn (passes : Passes depth tokens) :
    ∀ token ∈ tokens, token.kind ≠ .endOfInput := by
  induction tokens generalizing depth with
  | nil => exact nofun
  | cons first rest ih =>
    have here : first.kind ≠ .endOfInput := fun ends => passes.1 (.inl ends)
    exact List.forall_mem_cons.mpr ⟨here, ih passes.2⟩

theorem passes_concat :
    Passes depth (front ++ [token]) ↔
      Passes depth front ∧ ¬StopsAt (depthBehind depth front) token := by
  induction front generalizing depth with
  | nil => simp [Passes, depthBehind]
  | cons first front ih => simp [Passes, depthBehind, ih, and_assoc]

theorem Unhindered.passes (unhindered : Unhindered tokens) : Passes 0 tokens := by
  induction tokens using List.reverseRecOn with
  | nil => trivial
  | append_singleton front token ih =>
    have passes : Passes 0 front := by
      apply ih
      constructor
      · intro other member
        exact unhindered.goesOn other (List.mem_append_left _ member)
      · rintro before other after cause rfl
        exact unhindered.blameless before other (after ++ [token]) cause (by simp)
    rw [passes_concat, goesOn_iff]
    refine ⟨passes, unhindered.goesOn token (by simp), ?_⟩
    rw [Option.eq_none_iff_forall_ne_some]
    intro cause offends
    exact unhindered.blameless front token [] cause rfl (blames_of_offence passes offends)

/-- A reader gets past some tokens exactly where nothing keeps it from doing so. -/
theorem passes_iff_unhindered : Passes 0 tokens ↔ Unhindered tokens := by
  refine ⟨fun passes => ⟨passes.goesOn, ?_⟩, Unhindered.passes⟩
  rintro before token after cause rfl blames
  exact not_promising_of_blames passes.of_append blames passes.promising

/-! ## Reaching an atom without text -/

variable {pending : List OpenList} {finished : List Form} {fault : Option Fault}

/-- A token that is no atom without text has text if it is an atom. -/
theorem named_of_not_nameless (named : ¬Nameless token) :
    token.kind.isAtom = true → token.text ≠ "" :=
  fun atomic empty => named ⟨atomic, empty⟩

theorem consume_nameless (nameless : Nameless token) (ahead : List Token) :
    consume pending finished fault (token :: ahead) = .error (.misuse .emptyAtom) := by
  have unread : Form.ofToken token = .error (.misuse .emptyAtom) := by
    simp [Form.ofToken, nameless.1, nameless.2]
  rw [consume_atom nameless.1, unread]

/-- Reading comes to nothing if it gets to an atom without text, be it this one or one before. -/
theorem Passes.consume_eq (passes : Passes pending.length front) (nameless : Nameless token)
    (ahead : List Token) :
    consume pending finished fault (front ++ token :: ahead) = .error (.misuse .emptyAtom) := by
  induction front generalizing pending finished with
  | nil => exact consume_nameless nameless ahead
  | cons first front ih =>
    by_cases earlier : Nameless first
    · exact consume_nameless earlier _
    · rw [List.cons_append, consume_cons (named_of_not_nameless earlier), if_neg passes.1]
      apply ih
      rw [length_absorb]
      exact passes.2

/-- Reading comes to nothing only at an atom without text; otherwise whatever fault it meets is a
fault of reading. -/
theorem consume_cases (tokens : List Token) (pending : List OpenList) (finished : List Form) :
    (∃ front token ahead, tokens = front ++ token :: ahead ∧ Nameless token ∧
      Passes pending.length front) ∨
    ∃ reader, consume pending finished none tokens = .ok reader ∧
      ∀ fault, reader.fault = some fault → ∃ cause token, fault = .reading cause token := by
  induction tokens generalizing pending finished with
  | nil =>
    refine .inr ⟨_, rfl, ?_⟩
    intro fault met
    cases pending with
    | nil => cases met
    | cons innermost outer =>
      cases met
      exact ⟨_, _, rfl⟩
  | cons first ahead ih =>
    by_cases nameless : Nameless first
    · exact .inl ⟨[], first, ahead, rfl, nameless, trivial⟩
    rw [consume_cons (named_of_not_nameless nameless)]
    by_cases stops : StopsAt pending.length first
    · rw [if_pos stops]
      refine .inr ⟨_, rfl, ?_⟩
      intro fault met
      simp only [Option.or_none, fault?] at met
      split at met
      · split at met
        · cases met
        · cases met
          exact ⟨_, _, rfl⟩
      · obtain ⟨cause, -, rfl⟩ := Option.map_eq_some_iff.mp met
        exact ⟨_, _, rfl⟩
    · rw [if_neg stops]
      rcases ih (absorb first (pending, finished)).1 (absorb first (pending, finished)).2 with
        ⟨front, token, rest, rfl, nameless', passes⟩ | read
      · rw [length_absorb] at passes
        exact .inl ⟨first :: front, token, rest, rfl, nameless', stops, passes⟩
      · exact .inr read

/-! ## All forms, and one -/

theorem ReachesNameless.readAll_eq (reaches : ReachesNameless tokens) :
    Form.readAll tokens = .error (.misuse .emptyAtom) := by
  obtain ⟨front, token, ahead, rfl, nameless, unhindered⟩ := reaches
  have passes : Passes ([] : List OpenList).length front := unhindered.passes
  have read : consume [] [] none (front ++ token :: ahead) = .error (.misuse .emptyAtom) :=
    passes.consume_eq nameless ahead
  simp only [Form.readAll, run, ofTokens, read]
  rfl

/-- Where no atom without text is reached, there are forms, or there is a fault of reading. -/
theorem readAll_answers (reached : ¬ReachesNameless tokens) :
    (∃ forms, Form.readAll tokens = .ok forms ∧ DerivesAll forms (beforeEnd tokens)) ∨
      ∃ cause token, Form.readAll tokens = .error (.fault (.reading cause token)) := by
  rcases consume_cases tokens [] [] with
    ⟨front, token, ahead, split, nameless, passes⟩ | ⟨reader, ran, met⟩
  · exact absurd ⟨front, token, ahead, split, nameless, passes_iff_unhindered.mp passes⟩ reached
  · rw [readAll_of_consume ran]
    cases sound : reader.fault with
    | none =>
      have start : Progress [] [] [] := .top .nil
      exact .inl ⟨_, rfl, start.derivesAll ran sound⟩
    | some fault =>
      obtain ⟨cause, token, rfl⟩ := met fault sound
      exact .inr ⟨cause, token, rfl⟩

theorem Derives.ne_absent {form : Form} (derives : Derives form tokens) : form ≠ .absent := by
  rintro rfl
  obtain ⟨start, inside, -, token⟩ := derives.starts
  cases token

theorem DerivesAll.ne_absent {forms : List Form} (derives : DerivesAll forms tokens) :
    ∀ form ∈ forms, form ≠ .absent := by
  obtain ⟨items, rfl, -, each⟩ := derives
  intro form member
  obtain ⟨item, among, rfl⟩ := List.mem_map.mp member
  exact (each item among).ne_absent

/-- Where some token does not mark the end, the single form is one of all forms. -/
theorem readOne_of_visible (visible : ∃ token ∈ tokens, token.kind ≠ .endOfInput) :
    Form.readOne tokens = (do
      match ← Form.readAll tokens with
      | [] => .error (.misuse .noForm)
      | [form] => .ok form
      | _ :: second :: _ => .error (.fault (.reading .unexpectedToken second.token?))) := by
  obtain ⟨token, member, goesOn⟩ := visible
  refine if_neg fun all => goesOn ?_
  exact beq_iff_eq.mp (List.all_eq_true.mp all token member)

theorem ReachesNameless.readOne_eq (reaches : ReachesNameless tokens) :
    Form.readOne tokens = .error (.misuse .emptyAtom) := by
  have read := reaches.readAll_eq
  obtain ⟨front, token, ahead, rfl, nameless, -⟩ := reaches
  have goesOn : token.kind ≠ .endOfInput := by
    intro ends
    have atomic := nameless.1
    rw [ends] at atomic
    cases atomic
  rw [readOne_of_visible ⟨token, by simp, goesOn⟩, read]
  rfl

theorem EndsFirst.readOne_eq (ends : EndsFirst tokens) :
    Form.readOne tokens = .error (.misuse .noForm) := by
  obtain ⟨first, rest, rfl, marks, token, member, goesOn⟩ := ends
  have read : Form.readAll (first :: rest) = .ok [] :=
    DerivesAll.nil.readAll_eq (by simpa using marks)
  rw [readOne_of_visible ⟨token, List.mem_cons_of_mem _ member, goesOn⟩, read]
  rfl

theorem endsFirst_of_beforeEnd (visible : ∃ token ∈ tokens, token.kind ≠ .endOfInput)
    (none : beforeEnd tokens = []) : EndsFirst tokens := by
  obtain ⟨token, member, goesOn⟩ := visible
  cases tokens with
  | nil => cases member
  | cons first rest =>
    by_cases marks : first.kind = .endOfInput
    · refine ⟨first, rest, rfl, marks, token, ?_, goesOn⟩
      rcases List.mem_cons.mp member with rfl | behind
      · exact absurd marks goesOn
      · exact behind
    · rw [beforeEnd_cons rest marks] at none
      cases none

theorem readOne_answers (reached : ¬ReachesNameless tokens) (ended : ¬EndsFirst tokens) :
    (∃ form, Form.readOne tokens = .ok form ∧ form ≠ .absent) ∨
      ∃ cause token, Form.readOne tokens = .error (.fault (.reading cause token)) := by
  by_cases visible : ∃ token ∈ tokens, token.kind ≠ .endOfInput
  · rw [readOne_of_visible visible]
    rcases readAll_answers reached with ⟨forms, read, derives⟩ | ⟨cause, token, failed⟩
    · have some : beforeEnd tokens ≠ [] := fun none => ended (endsFirst_of_beforeEnd visible none)
      rw [read]
      match forms, derives.ne_absent, Form.ne_nil_of_derivesAll derives some with
      | [form], present, _ => exact .inl ⟨form, rfl, present form List.mem_cons_self⟩
      | _ :: second :: _, _, _ => exact .inr ⟨_, _, rfl⟩
    · rw [failed]
      exact .inr ⟨cause, token, rfl⟩
  · have blank : ∀ token ∈ tokens, token.kind = .endOfInput := by simpa using visible
    exact .inr ⟨_, _, readOne_blank blank⟩

/-- Whatever the tokens are, asking for their single form is a misuse exactly where an atom without
text is reached, or where the end is marked in front of a token that does not mark it.  In every
other case there is a form, which is not absent, or a fault of reading. -/
theorem readOne_misuse_exact (tokens : List Token) :
    ((∃ reason, Form.readOne tokens = .error (.misuse reason)) ↔
      ReachesNameless tokens ∨ EndsFirst tokens) ∧
    (¬(ReachesNameless tokens ∨ EndsFirst tokens) →
      (∃ form, Form.readOne tokens = .ok form ∧ form ≠ .absent) ∨
        ∃ cause token, Form.readOne tokens = .error (.fault (.reading cause token))) := by
  have answered : ¬(ReachesNameless tokens ∨ EndsFirst tokens) →
      (∃ form, Form.readOne tokens = .ok form ∧ form ≠ .absent) ∨
        ∃ cause token, Form.readOne tokens = .error (.fault (.reading cause token)) :=
    fun neither => readOne_answers (fun reached => neither (.inl reached))
      fun ended => neither (.inr ended)
  refine ⟨⟨?_, ?_⟩, answered⟩
  · rintro ⟨reason, misused⟩
    by_contra neither
    rcases answered neither with ⟨form, read, -⟩ | ⟨cause, token, failed⟩
    · cases misused.symm.trans read
    · cases misused.symm.trans failed
  · rintro (reached | ended)
    · exact ⟨_, reached.readOne_eq⟩
    · exact ⟨_, ended.readOne_eq⟩

/-- Behind a token that offends, no atom without text is reached. -/
example : Form.readOne [⟨.closeList, ")", ⟨1, 1⟩⟩, ⟨.atom, "", ⟨1, 2⟩⟩] =
    .error (.fault (.reading .unexpectedToken (some ⟨.closeList, ")", ⟨1, 1⟩⟩))) := rfl

end MiniLisp.Reader
