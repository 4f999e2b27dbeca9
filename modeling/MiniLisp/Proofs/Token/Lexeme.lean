import MiniLisp.Token.Scan

/-!
# Lexemes

What may stand as a token at an offset of a text is said of the whole text: which of its quotes
start a string literal, where the literal ends, and at which offsets no atom goes on.  Scanning
looks only at the characters ahead, and cuts off exactly these lexemes.
-/

namespace MiniLisp.Token

/-- A string literal from `start` could close at `stop`: a double quote stands there, two places
later or more and on the same line. -/
structure Closes (source : List Char) (start stop : Nat) : Prop where
  apart : start + 2 ≤ stop
  quote : source[stop]? = some '"'
  sameLine : ∀ offset, start < offset → offset < stop → source[offset]? ≠ some '\n'

/-- A string literal starts at an offset: a double quote stands there, and another could close the
literal. -/
def StartsString (source : List Char) (start : Nat) : Prop :=
  source[start]? = some '"' ∧ ∃ stop, Closes source start stop

/-- The string literal from `start` ends at `stop`, the first place where it could close. -/
structure StringLiteral (source : List Char) (start stop : Nat) : Prop where
  quote : source[start]? = some '"'
  closes : Closes source start stop
  least : ∀ other, Closes source start other → stop ≤ other

/-- No atom goes on at an offset: the text ends there, a parenthesis or a blank stands there, or a
string literal starts there. -/
inductive Breaks (source : List Char) (offset : Nat) : Prop where
  | ends (ends : source.length ≤ offset)
  | parenthesis (found : source[offset]? = some '(' ∨ source[offset]? = some ')')
  | blank {character : Char} (found : source[offset]? = some character)
      (blank : Text.isBlank character = true)
  | string (starts : StartsString source offset)

/-- A text that makes a token of a kind where it stands at `start`. -/
inductive Lexeme (source : List Char) (start : Nat) : TokenKind → List Char → Prop where
  | openList : Lexeme source start .openList ['(']
  | closeList : Lexeme source start .closeList [')']
  | string {text : List Char} {stop : Nat} (literal : StringLiteral source start stop)
      (spans : start + text.length = stop + 1) : Lexeme source start .string text
  | atom {text : List Char} (nonempty : text ≠ [])
      (unbroken : ∀ offset, start ≤ offset → offset < start + text.length → ¬Breaks source offset)
      (followed : Breaks source (start + text.length)) : Lexeme source start .atom text

/-! ## String literals -/

theorem quoteOnLine?_found {text : List Char} {extent : Nat}
    (found : quoteOnLine? text = some extent) :
    text[extent]? = some '"' ∧
      ∀ offset, offset < extent → text[offset]? ≠ some '"' ∧ text[offset]? ≠ some '\n' := by
  induction text generalizing extent with
  | nil => cases found
  | cons first rest ih =>
    rw [quoteOnLine?] at found
    split at found
    case isTrue quote =>
      cases found
      exact ⟨congrArg some quote, nofun⟩
    case isFalse unquoted =>
      split at found
      case isTrue => cases found
      case isFalse sameLine =>
        rcases Option.map_eq_some_iff.mp found with ⟨further, found', rfl⟩
        rcases ih found' with ⟨quote, before⟩
        refine ⟨quote, ?_⟩
        intro offset inside
        cases offset with
        | zero => simp [unquoted, sameLine]
        | succ offset => exact before offset (Nat.lt_of_succ_lt_succ inside)

theorem quoteOnLine?_missing {text : List Char} (missing : quoteOnLine? text = none) {offset : Nat}
    (quote : text[offset]? = some '"') : ∃ line, line < offset ∧ text[line]? = some '\n' := by
  induction text generalizing offset with
  | nil => cases quote
  | cons first rest ih =>
    rw [quoteOnLine?] at missing
    split at missing
    case isTrue => cases missing
    case isFalse unquoted =>
      cases offset with
      | zero => exact absurd (Option.some.inj quote) unquoted
      | succ offset =>
        split at missing
        case isTrue newline => exact ⟨0, Nat.succ_pos offset, congrArg some newline⟩
        case isFalse =>
          rcases ih (Option.map_eq_none_iff.mp missing) quote with ⟨line, inside, newline⟩
          exact ⟨line + 1, Nat.succ_lt_succ inside, newline⟩

section Ahead

variable {source : List Char} {start stop : Nat} {first : Char} {rest : List Char}

theorem getElem?_ahead {text : List Char} (ahead : source.drop start = text) (offset : Nat) :
    source[start + offset]? = text[offset]? := by
  rw [← ahead, List.getElem?_drop]

theorem drop_succ_of_ahead (ahead : source.drop start = first :: rest) :
    source.drop (start + 1) = rest := by
  rw [← List.drop_drop, ahead, List.drop_one, List.tail_cons]

/-- Where a literal could close is decided by what follows its second character. -/
theorem closes_iff {second : Char} (ahead : source.drop start = first :: second :: rest) :
    Closes source start stop ↔ second ≠ '\n' ∧ ∃ extent, stop = start + (extent + 2) ∧
      rest[extent]? = some '"' ∧ ∀ offset, offset < extent → rest[offset]? ≠ some '\n' := by
  have later : ∀ offset, source[start + (offset + 2)]? = rest[offset]? :=
    fun offset => getElem?_ahead ahead (offset + 2)
  constructor
  · rintro ⟨apart, quote, sameLine⟩
    rcases Nat.exists_eq_add_of_le apart with ⟨extent, rfl⟩
    rw [Nat.add_assoc, Nat.add_comm 2 extent] at quote sameLine
    refine ⟨?_, extent, by omega, ?_, ?_⟩
    · have next := sameLine (start + 1) (by omega) (by omega)
      rw [getElem?_ahead ahead 1] at next
      exact fun newline => next (congrArg some newline)
    · rw [← later, quote]
    · intro offset inside
      rw [← later]
      exact sameLine (start + (offset + 2)) (by omega) (by omega)
  · rintro ⟨unbroken, extent, rfl, quote, sameLine⟩
    refine ⟨by omega, by rw [later, quote], ?_⟩
    intro offset behind inside
    rcases Nat.exists_eq_add_of_lt behind with ⟨place, rfl⟩
    cases place with
    | zero =>
      rw [Nat.add_zero, getElem?_ahead ahead 1]
      exact fun newline => unbroken (Option.some.inj newline)
    | succ place =>
      rw [Nat.add_assoc, later]
      exact sameLine place (by omega)

theorem not_closes_of_short (ahead : source.drop start = [first]) : ¬Closes source start stop := by
  rintro ⟨apart, quote, _⟩
  rcases Nat.exists_eq_add_of_le apart with ⟨extent, rfl⟩
  rw [Nat.add_assoc, getElem?_ahead ahead, Nat.add_comm] at quote
  cases quote

theorem quote_iff (ahead : source.drop start = first :: rest) :
    source[start]? = some '"' ↔ first = '"' := by
  have here := getElem?_ahead ahead 0
  rw [Nat.add_zero] at here
  rw [here, List.getElem?_cons_zero, Option.some.injEq]

/-- A literal that is cut off ends at the first place where it could close. -/
theorem stringLiteral_of_stringExtent? {extent : Nat} (ahead : source.drop start = first :: rest)
    (found : stringExtent? first rest = some extent) :
    StringLiteral source start (start + extent) := by
  cases rest with
  | nil => cases found
  | cons second rest =>
    rw [stringExtent?] at found
    split at found
    case isFalse => cases found
    case isTrue opens =>
      rcases Option.map_eq_some_iff.mp found with ⟨further, found', rfl⟩
      rcases quoteOnLine?_found found' with ⟨quote, before⟩
      refine ⟨(quote_iff ahead).mpr opens.1, ?_, ?_⟩
      · exact (closes_iff ahead).mpr
          ⟨opens.2, further, rfl, quote, fun offset inside => (before offset inside).2⟩
      · intro other closes
        rcases (closes_iff ahead).mp closes with ⟨_, extent, rfl, quote', _⟩
        have reached : further ≤ extent :=
          Nat.le_of_not_lt fun short => (before extent short).1 quote'
        omega

theorem not_startsString_of_stringExtent? (ahead : source.drop start = first :: rest)
    (missing : stringExtent? first rest = none) : ¬StartsString source start := by
  rintro ⟨quote, stop, closes⟩
  cases rest with
  | nil => exact not_closes_of_short ahead closes
  | cons second rest =>
    rcases (closes_iff ahead).mp closes with ⟨sameLine, extent, rfl, quote', before⟩
    rw [stringExtent?, if_pos ⟨(quote_iff ahead).mp quote, sameLine⟩] at missing
    have noQuote := Option.map_eq_none_iff.mp missing
    rcases quoteOnLine?_missing noQuote quote' with ⟨line, inside, newline⟩
    exact before line inside newline

theorem StringLiteral.startsString (literal : StringLiteral source start stop) :
    StartsString source start :=
  ⟨literal.quote, stop, literal.closes⟩

theorem StringLiteral.stop_unique {stop' : Nat} (literal : StringLiteral source start stop)
    (literal' : StringLiteral source start stop') : stop = stop' :=
  Nat.le_antisymm (literal.least stop' literal'.closes) (literal'.least stop literal.closes)

theorem startsString_iff (ahead : source.drop start = first :: rest) :
    StartsString source start ↔ (stringExtent? first rest).isSome = true := by
  cases found : stringExtent? first rest with
  | none => simpa using not_startsString_of_stringExtent? ahead found
  | some extent => simpa using (stringLiteral_of_stringExtent? ahead found).startsString

/-! ## Atoms -/

theorem breaks_iff (ahead : source.drop start = first :: rest) :
    Breaks source start ↔ endsAtom first rest = true := by
  have here : source[start]? = some first := getElem?_ahead ahead 0
  have inside : start < source.length := (List.getElem?_eq_some_iff.mp here).1
  simp only [endsAtom, Bool.or_eq_true, beq_iff_eq, ← startsString_iff ahead]
  constructor
  · rintro (ends | found | @⟨character, found, blank⟩ | starts)
    · omega
    · rw [here, Option.some.injEq, Option.some.injEq] at found
      exact .inl (.inl found)
    · rw [here, Option.some.injEq] at found
      exact .inl (.inr (found ▸ blank))
    · exact .inr starts
  · rintro (((rfl | rfl) | blank) | starts)
    · exact .parenthesis (.inl here)
    · exact .parenthesis (.inr here)
    · exact .blank here blank
    · exact .string starts

/-- The characters that continue an atom reach up to the first offset where no atom goes on. -/
theorem atomExtent_spec {text : List Char} (ahead : source.drop start = text) :
    (∀ offset, offset < atomExtent text → ¬Breaks source (start + offset)) ∧
      Breaks source (start + atomExtent text) := by
  induction text generalizing start with
  | nil => exact ⟨nofun, .ends (List.drop_eq_nil_iff.mp ahead)⟩
  | cons first rest ih =>
    rw [atomExtent]
    split
    case isTrue ends => exact ⟨nofun, (breaks_iff ahead).mpr ends⟩
    case isFalse goesOn =>
      rcases ih (drop_succ_of_ahead ahead) with ⟨unbroken, followed⟩
      refine ⟨fun offset inside => ?_, by rwa [Nat.add_comm (atomExtent rest), ← Nat.add_assoc]⟩
      cases offset with
      | zero => exact fun breaks => goesOn ((breaks_iff ahead).mp breaks)
      | succ offset =>
        rw [Nat.add_comm offset, ← Nat.add_assoc]
        exact unbroken offset (Nat.lt_of_succ_lt_succ inside)

theorem atomExtent_eq {text : List Char} {extent : Nat} (ahead : source.drop start = text)
    (unbroken : ∀ offset, offset < extent → ¬Breaks source (start + offset))
    (followed : Breaks source (start + extent)) : atomExtent text = extent := by
  rcases atomExtent_spec ahead with ⟨unbroken', followed'⟩
  have short : ¬atomExtent text < extent := fun short => unbroken _ short followed'
  have long : ¬extent < atomExtent text := fun long => unbroken' _ long followed
  omega

theorem atomExtent_le_length (text : List Char) : atomExtent text ≤ text.length := by
  induction text with
  | nil => exact Nat.le_refl 0
  | cons first rest ih =>
    rw [atomExtent]
    split
    case isTrue => exact Nat.zero_le _
    case isFalse => exact Nat.succ_le_succ ih

/-! ## Cutting -/

theorem cut_blank (blank : Text.isBlank first = true) : cut first rest = (none, 0) := by
  have notOpen : first ≠ '(' := by
    rintro rfl
    cases blank
  have notClose : first ≠ ')' := by
    rintro rfl
    cases blank
  rw [cut, if_neg notOpen, if_neg notClose, if_pos blank]

theorem cut_string {extent : Nat} (found : stringExtent? first rest = some extent) :
    cut first rest = (some .string, extent) := by
  have quote : first = '"' := by
    cases rest with
    | nil => cases found
    | cons second rest =>
      rw [stringExtent?] at found
      split at found
      case isTrue opens => exact opens.1
      case isFalse => cases found
  subst quote
  have notBlank : ¬Text.isBlank '"' = true := by decide
  rw [cut, if_neg (by decide), if_neg (by decide), if_neg notBlank, found]

theorem cut_atom (goesOn : endsAtom first rest = false) :
    cut first rest = (some .atom, atomExtent rest) := by
  simp only [endsAtom, Bool.or_eq_false_iff, beq_eq_false_iff_ne, Option.isSome_eq_false_iff,
    Option.isNone_iff_eq_none] at goesOn
  rcases goesOn with ⟨⟨⟨notOpen, notClose⟩, notBlank⟩, noString⟩
  rw [cut, if_neg notOpen, if_neg notClose, if_neg (ne_true_of_eq_false notBlank), noString]

/-- What is cut off in front of a blank, a parenthesis or a string is an atom. -/
theorem lexeme_atom (ahead : source.drop start = first :: rest)
    (goesOn : endsAtom first rest = false) :
    Lexeme source start .atom (first :: rest.take (atomExtent rest)) := by
  have length : (first :: rest.take (atomExtent rest)).length = 1 + atomExtent rest := by
    rw [List.length_cons, List.length_take, Nat.min_eq_left (atomExtent_le_length rest),
      Nat.add_comm]
  rcases atomExtent_spec (drop_succ_of_ahead ahead) with ⟨unbroken, followed⟩
  refine .atom (List.cons_ne_nil _ _) ?_ ?_
  · rw [length]
    intro offset behind inside
    rcases Nat.exists_eq_add_of_le behind with ⟨place, rfl⟩
    cases place with
    | zero =>
      intro breaks
      exact ne_true_of_eq_false goesOn ((breaks_iff ahead).mp breaks)
    | succ place =>
      rw [Nat.add_comm place, ← Nat.add_assoc]
      exact unbroken place (by omega)
  · rw [length, ← Nat.add_assoc]
    exact followed

theorem lexeme_string {extent : Nat} (ahead : source.drop start = first :: rest)
    (found : stringExtent? first rest = some extent) :
    extent ≤ rest.length ∧ Lexeme source start .string (first :: rest.take extent) := by
  have literal := stringLiteral_of_stringExtent? ahead found
  have reaches := (List.getElem?_eq_some_iff.mp literal.closes.quote).1
  have length := congrArg List.length ahead
  rw [List.length_drop, List.length_cons] at length
  have fits : extent ≤ rest.length := by omega
  refine ⟨fits, .string literal ?_⟩
  rw [List.length_cons, List.length_take, Nat.min_eq_left fits, Nat.add_assoc]

/-- In front of a character that is no blank, a lexeme is cut off. -/
theorem exists_lexeme (ahead : source.drop start = first :: rest)
    (visible : Text.isBlank first = false) :
    ∃ kind extent, extent ≤ rest.length ∧ cut first rest = (some kind, extent) ∧
      Lexeme source start kind (first :: rest.take extent) := by
  by_cases opens : first = '('
  · subst opens
    exact ⟨.openList, 0, Nat.zero_le _, if_pos rfl, .openList⟩
  by_cases closes : first = ')'
  · subst closes
    exact ⟨.closeList, 0, Nat.zero_le _, rfl, .closeList⟩
  cases found : stringExtent? first rest with
  | some extent =>
    rcases lexeme_string ahead found with ⟨fits, lexeme⟩
    exact ⟨.string, extent, fits, cut_string found, lexeme⟩
  | none =>
    have goesOn : endsAtom first rest = false := by simp [endsAtom, opens, closes, visible, found]
    exact ⟨.atom, _, atomExtent_le_length rest, cut_atom goesOn, lexeme_atom ahead goesOn⟩

namespace Lexeme

variable {kind : TokenKind} {text after : List Char}

theorem ne_nil (lexeme : Lexeme source start kind text) : text ≠ [] := by
  cases lexeme with
  | openList | closeList => exact List.cons_ne_nil _ _
  | string literal spans =>
    rintro rfl
    have apart := literal.closes.apart
    rw [List.length_nil] at spans
    omega
  | atom nonempty => exact nonempty

/-- A lexeme is cut off where it stands, and nothing more than it. -/
theorem cut_eq (lexeme : Lexeme source start kind (first :: text))
    (ahead : source.drop start = first :: (text ++ after)) :
    cut first (text ++ after) = (some kind, text.length) := by
  cases lexeme with
  | openList => rfl
  | closeList => rfl
  | @string _ stop literal spans =>
    obtain ⟨extent, found⟩ :=
      Option.isSome_iff_exists.mp ((startsString_iff ahead).mp literal.startsString)
    have ends := literal.stop_unique (stringLiteral_of_stringExtent? ahead found)
    rw [List.length_cons] at spans
    rw [cut_string found]
    congr 1
    omega
  | atom _ unbroken followed =>
    rw [List.length_cons, Nat.add_comm text.length, ← Nat.add_assoc] at unbroken followed
    have goesOn : endsAtom first (text ++ after) = false := by
      apply eq_false_of_ne_true
      intro ends
      exact unbroken start (Nat.le_refl _) (by omega) ((breaks_iff ahead).mpr ends)
    have extent : atomExtent (text ++ after) = text.length := by
      refine atomExtent_eq (drop_succ_of_ahead ahead) (fun offset inside => ?_) followed
      exact unbroken (start + 1 + offset) (by omega) (by omega)
    rw [cut_atom goesOn, extent]

theorem exists_visible (lexeme : Lexeme source start kind text)
    (ahead : source.drop start = text ++ after) :
    ∃ first rest, text = first :: rest ∧ Text.isBlank first = false := by
  cases text with
  | nil => exact absurd rfl lexeme.ne_nil
  | cons first rest =>
    refine ⟨first, rest, rfl, eq_false_of_ne_true ?_⟩
    intro blank
    cases (cut_blank blank).symm.trans (lexeme.cut_eq ahead)

/-- At most one lexeme stands at an offset. -/
theorem unique {kind' : TokenKind} {text' after' : List Char}
    (lexeme : Lexeme source start kind text) (lexeme' : Lexeme source start kind' text')
    (ahead : source.drop start = text ++ after) (ahead' : source.drop start = text' ++ after') :
    kind = kind' ∧ text = text' := by
  cases text with
  | nil => exact absurd rfl lexeme.ne_nil
  | cons first rest =>
    cases text' with
    | nil => exact absurd rfl lexeme'.ne_nil
    | cons first' rest' =>
      have joined : first :: (rest ++ after) = first' :: (rest' ++ after') :=
        ahead.symm.trans ahead'
      rcases List.cons.inj joined with ⟨rfl, behind⟩
      have cuts := lexeme.cut_eq ahead
      rw [behind, lexeme'.cut_eq ahead'] at cuts
      simp only [Prod.mk.injEq, Option.some.injEq] at cuts
      rcases cuts with ⟨sameKind, sameLength⟩
      have sameText := (List.append_inj behind sameLength.symm).1
      exact ⟨sameKind.symm, congrArg (first :: ·) sameText⟩

/-- A lexeme is scanned as one token, and scanning goes on behind it. -/
theorem scanFrom_eq (lexeme : Lexeme source start kind text)
    (ahead : source.drop start = text ++ after) (position : Position) :
    scanFrom position 0 (text ++ after) =
      ⟨kind, String.ofList text, position⟩ :: scanFrom (position.after text) 0 after := by
  cases text with
  | nil => exact absurd rfl lexeme.ne_nil
  | cons first rest =>
    rw [List.cons_append] at ahead ⊢
    rw [scanFrom, lexeme.cut_eq ahead]
    simp only [scanFrom_covered _ rest.length, List.take_left', List.drop_left',
      Position.after_cons]

end Lexeme

theorem scanFrom_blanks {gap : List Char} (blank : ∀ character ∈ gap, Text.isBlank character = true)
    (position : Position) (text : List Char) :
    scanFrom position 0 (gap ++ text) = scanFrom (position.after gap) 0 text := by
  induction gap generalizing position with
  | nil => rfl
  | cons first rest ih =>
    have others := fun other member => blank other (List.mem_cons_of_mem first member)
    rw [List.cons_append, scanFrom, cut_blank (blank first List.mem_cons_self)]
    exact ih others (position.next first)

end Ahead

end MiniLisp.Token
