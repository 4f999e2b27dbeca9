import MiniLisp.Proofs.Reader.Grammar

/-!
# Reading a text fails with faults only

Scanning cuts no empty token, and marks the end behind all others.  Hence the two requests that
reading cannot answer, the form of an atom without text and the first of no forms, are never made
where a program text is read.
-/

namespace MiniLisp

namespace Token

theorem cut_ne_endOfInput {first : Char} {rest : List Char} {kind : TokenKind} {extent : Nat}
    (found : cut first rest = (some kind, extent)) : kind ≠ .endOfInput := by
  rintro rfl
  simp only [cut] at found
  repeat' split at found
  all_goals cases found

/-- No token that is cut is empty or marks the end. -/
theorem scanFrom_proper (position : Position) (covered : Nat) (source : List Char) :
    ∀ token ∈ scanFrom position covered source, token.text ≠ "" ∧ token.kind ≠ .endOfInput := by
  fun_induction scanFrom position covered source with
  | case1 => exact nofun
  | case2 position covered first rest ih => exact ih
  | case3 position first rest extent _ ih => exact ih
  | case4 position first rest kind extent found ih =>
    intro token member
    rcases List.mem_cons.mp member with rfl | later
    · refine ⟨?_, cut_ne_endOfInput found⟩
      intro empty
      cases String.ofList_injective (empty.trans String.ofList_nil.symm)
    · exact ih token later

end Token

namespace Form

/-- Tokens with text are read, or reading them fails with a fault. -/
theorem readAll_cases {tokens : List Token}
    (named : ∀ token ∈ tokens, token.kind.isAtom = true → token.text ≠ "") :
    (∃ fault, readAll tokens = .error (.fault fault)) ∨
      ∃ forms, readAll tokens = .ok forms ∧
        Reader.DerivesAll forms (Reader.beforeEnd tokens) := by
  obtain ⟨reader, ran, -⟩ := Reader.consume_acceptable named [] []
  rw [Reader.readAll_of_consume ran]
  cases sound : reader.fault with
  | some fault => exact .inl ⟨fault, rfl⟩
  | none =>
    have start : Reader.Progress [] [] [] := .top .nil
    exact .inr ⟨_, rfl, start.derivesAll ran sound⟩

theorem ne_nil_of_derivesAll {forms : List Form} {tokens : List Token}
    (derives : Reader.DerivesAll forms tokens) (some : tokens ≠ []) : forms ≠ [] := by
  rintro rfl
  obtain ⟨items, none, joined, -⟩ := derives
  rw [List.map_eq_nil_iff.mp none] at joined
  exact some joined.symm

theorem tokenize_named (source : List Char) :
    ∀ token ∈ Token.tokenize source, token.kind.isAtom = true → token.text ≠ "" := by
  intro token member atomic
  rcases List.mem_append.mp member with inside | last
  · exact (Token.scanFrom_proper _ _ _ token inside).1
  · rw [List.mem_singleton.mp last] at atomic
    cases atomic

theorem beforeEnd_tokenize (source : List Char) :
    Reader.beforeEnd (Token.tokenize source) = Token.scan source := by
  have goesOn : ∀ token ∈ Token.scan source, decide (token.kind ≠ .endOfInput) = true := by
    intro token member
    exact decide_eq_true (Token.scanFrom_proper _ _ _ token member).2
  rw [Reader.beforeEnd, Token.tokenize, List.takeWhile_append_of_pos goesOn]
  exact List.append_nil _

/-- Where a text is not the text of a single form, reading it fails with a fault. -/
theorem parse_cases (source : List Char) :
    (∃ fault, parse source = .error (.fault fault)) ∨ ∃ form, parse source = .ok form := by
  rw [parse, readOne]
  split
  next => exact .inl ⟨_, rfl⟩
  next notAll =>
    rcases readAll_cases (tokenize_named source) with ⟨fault, failed⟩ | ⟨forms, read, derives⟩
    · rw [failed]
      exact .inl ⟨fault, rfl⟩
    · rw [beforeEnd_tokenize] at derives
      have visible : Token.scan source ≠ [] := by
        intro blank
        rw [Token.tokenize, blank] at notAll
        exact notAll rfl
      rw [read]
      match forms, ne_nil_of_derivesAll derives visible with
      | [form], _ => exact .inr ⟨form, rfl⟩
      | _ :: second :: _, _ => exact .inl ⟨_, rfl⟩

end Form

end MiniLisp
