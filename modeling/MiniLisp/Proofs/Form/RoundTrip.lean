import Mathlib.Data.List.Forall2
import MiniLisp.Form.Print
import MiniLisp.Proofs.Reader.Grammar
import MiniLisp.Proofs.Token.Lexeme

/-!
# Reading what was written

A form that could have been read is read back from its text.  Its text is cut into the tokens of a
derivation of the same form, whatever follows, as long as this cannot continue an atom.
-/

namespace MiniLisp

/-- A text that is read as a symbol. -/
structure SymbolName (name : List Char) : Prop where
  nonempty : name ≠ []
  plain : ∀ character ∈ name,
    Text.isBlank character = false ∧ character ≠ '(' ∧ character ≠ ')' ∧ character ≠ '"'
  notDigits : name.all Char.isDigit = false

/-- A text that is read as a string: quotes at both ends, at least one character between them, and
no newline or further quote, except that the first character inside may be a quote. -/
structure QuotedText (text : List Char) : Prop where
  opens : text[0]? = some '"'
  closes : text[text.length - 1]? = some '"'
  filled : 3 ≤ text.length
  oneLine : '\n' ∉ text
  unquoted : ∀ index, 2 ≤ index → index ≤ text.length - 2 → text[index]? ≠ some '"'

/-- An atom that could have been read. -/
def Atom.Writable : Atom → Prop
  | .int value => 0 ≤ value
  | .string text => QuotedText text.toList
  | .symbol name => SymbolName name.toList

/-- A form without absent parts whose atoms could all have been read. -/
inductive Form.Writable : Form → Prop where
  | atom {token : Option Token} {value : Atom} (writable : value.Writable) :
      Writable (.atom token value)
  | list {token : Option Token} {label : Option Nat} {items : List Form}
      (each : ∀ item ∈ items, Writable item) : Writable (.list token label items)

namespace Form

/-! ## Sameness -/

mutual

/-- Two forms are the same if a third one is the same as both. -/
theorem same_of_same_same (read : Form) {left right : Form} (sameLeft : read.same left = true)
    (sameRight : read.same right = true) : left.same right = true := by
  cases read with
  | absent =>
    cases left <;> cases right <;> simp only [same, Bool.false_eq_true] at sameLeft sameRight ⊢
  | atom token value =>
    cases left <;> cases right <;> simp only [same, Bool.false_eq_true] at sameLeft sameRight ⊢
    rw [beq_iff_eq] at sameLeft sameRight ⊢
    rw [← sameLeft, sameRight]
  | list token label items =>
    cases left <;> cases right <;> simp only [same, Bool.false_eq_true] at sameLeft sameRight ⊢
    exact sameItems_of_same_same items sameLeft sameRight

theorem sameItems_of_same_same (read : List Form) {left right : List Form}
    (sameLeft : sameItems read left = true) (sameRight : sameItems read right = true) :
    sameItems left right = true := by
  cases read with
  | nil =>
    cases left <;> cases right <;> simp only [sameItems, Bool.false_eq_true] at sameLeft sameRight ⊢
  | cons first rest =>
    cases left <;> cases right <;>
      simp only [sameItems, Bool.and_eq_true, Bool.false_eq_true] at sameLeft sameRight ⊢
    exact ⟨same_of_same_same first sameLeft.1 sameRight.1,
      sameItems_of_same_same rest sameLeft.2 sameRight.2⟩

end

mutual

theorem same_refl : (form : Form) → form.same form = true
  | absent => rfl
  | atom _ _ => by simp [same]
  | list _ _ items => by
    rw [same]
    exact sameItems_refl items

theorem sameItems_refl : (items : List Form) → sameItems items items = true
  | [] => rfl
  | first :: rest => by
    rw [sameItems, same_refl first, sameItems_refl rest]
    rfl

end

theorem same_symm {left right : Form} (alike : left.same right = true) : right.same left = true :=
  same_of_same_same left alike (same_refl left)

theorem sameItems_symm {lefts rights : List Form} (alike : sameItems lefts rights = true) :
    sameItems rights lefts = true :=
  sameItems_of_same_same lefts alike (sameItems_refl lefts)

theorem sameItems_iff_forall₂ {lefts rights : List Form} :
    sameItems lefts rights = true ↔
      List.Forall₂ (fun left right => left.same right = true) lefts rights := by
  induction lefts generalizing rights with
  | nil => cases rights <;> simp [sameItems]
  | cons left lefts ih =>
    cases rights with
    | nil => simp [sameItems]
    | cons right rights => simp [sameItems, ih]

theorem exists_of_same_atom {form : Form} {token : Option Token} {value : Atom}
    (alike : form.same (.atom token value) = true) : ∃ token', form = .atom token' value := by
  cases form with
  | atom token' value' =>
    cases beq_iff_eq.mp alike
    exact ⟨token', rfl⟩
  | absent | list => cases alike

theorem exists_of_same_list {form : Form} {token : Option Token} {label : Option Nat}
    {items : List Form} (alike : form.same (.list token label items) = true) :
    ∃ token' label' read, form = .list token' label' read ∧ sameItems read items = true := by
  cases form with
  | list token' label' read => exact ⟨token', label', read, rfl, alike⟩
  | absent | atom => cases alike

theorem exists_of_sameItems_cons {read rest : List Form} {first : Form}
    (alike : sameItems read (first :: rest) = true) :
    ∃ first' rest', read = first' :: rest' ∧ first'.same first = true ∧
      sameItems rest' rest = true := by
  cases read with
  | nil => cases alike
  | cons first' rest' =>
    rw [sameItems, Bool.and_eq_true] at alike
    exact ⟨first', rest', rfl, alike⟩

/-! ## Atoms -/

/-- What may follow the text of a form: nothing, a space or a closing parenthesis. -/
def Bounds (rest : List Char) : Prop :=
  ∀ next ∈ rest.head?, next = ' ' ∨ next = ')'

theorem Bounds.breaks {text rest : List Char} (bounds : Bounds rest) :
    Token.Breaks (text ++ rest) text.length := by
  cases rest with
  | nil =>
    rw [List.append_nil]
    exact .ends (Nat.le_refl _)
  | cons next more =>
    have here : (text ++ next :: more)[text.length]? = some next := by simp
    rcases bounds next rfl with rfl | rfl
    · exact .blank here (by decide)
    · exact .parenthesis (.inr here)

/-- Text without blanks, parentheses and quotes is an atom. -/
theorem lexeme_plain {text rest : List Char} (nonempty : text ≠ [])
    (plain : ∀ character ∈ text,
      Text.isBlank character = false ∧ character ≠ '(' ∧ character ≠ ')' ∧ character ≠ '"')
    (bounds : Bounds rest) : Token.Lexeme (text ++ rest) 0 .atom text := by
  apply Token.Lexeme.atom nonempty
  · intro offset _ inside
    rw [Nat.zero_add] at inside
    have here : (text ++ rest)[offset]? = some text[offset] := by
      rw [List.getElem?_append_left inside, List.getElem?_eq_getElem inside]
    obtain ⟨visible, notOpen, notClose, notQuote⟩ := plain _ (List.getElem_mem inside)
    rintro (ends | (opens | closes) | @⟨_, found, blank⟩ | ⟨quote, _⟩)
    · rw [List.length_append] at ends
      omega
    · exact notOpen (Option.some.inj (here.symm.trans opens))
    · exact notClose (Option.some.inj (here.symm.trans closes))
    · cases Option.some.inj (here.symm.trans found)
      cases visible.symm.trans blank
    · exact notQuote (Option.some.inj (here.symm.trans quote))
  · rw [Nat.zero_add]
    exact bounds.breaks

/-- A quoted text is a string, and nothing that follows changes where it ends. -/
theorem lexeme_quoted {text : List Char} (quoted : QuotedText text) (rest : List Char) :
    Token.Lexeme (text ++ rest) 0 .string text := by
  have filled := quoted.filled
  have inside : ∀ offset, offset < text.length → (text ++ rest)[offset]? = text[offset]? :=
    fun offset inside => List.getElem?_append_left inside
  have literal : Token.StringLiteral (text ++ rest) 0 (text.length - 1) := by
    refine ⟨?_, ⟨by omega, ?_, ?_⟩, ?_⟩
    · rw [inside 0 (by omega)]
      exact quoted.opens
    · rw [inside _ (by omega)]
      exact quoted.closes
    · intro offset _ before newline
      rw [inside offset (by omega)] at newline
      exact quoted.oneLine (List.mem_of_getElem? newline)
    · rintro other ⟨apart, quote, _⟩
      apply Nat.le_of_not_lt
      intro before
      rw [inside other (by omega)] at quote
      exact quoted.unquoted other (by omega) (by omega) quote
  exact .string literal (by omega)

theorem ofToken_of_quote {token : Token} {rest : List Char} (atomic : token.kind.isAtom = true)
    (text : token.text.toList = '"' :: rest) :
    ofToken token = .ok (.atom token (.string token.text)) := by
  simp only [ofToken, atomic, if_true, text]

theorem ofToken_of_digits {token : Token} {value : Nat} (atomic : token.kind.isAtom = true)
    (text : token.text.toList = Nat.toDigits 10 value) (inRange : value ≤ maxInt) :
    ofToken token = .ok (.atom token (.int (Int64.ofNat value))) := by
  have digit : ∀ character ∈ Nat.toDigits 10 value, character.isDigit = true :=
    fun character member => Nat.isDigit_of_mem_toDigits (by decide) (by decide) member
  have number : Nat.ofDigitChars 10 (Nat.toDigits 10 value) 0 = value :=
    Nat.ofDigitChars_ten_toDigits
  simp only [ofToken, atomic, if_true, text]
  cases digits : Nat.toDigits 10 value with
  | nil => exact absurd digits Nat.toDigits_ne_nil
  | cons first rest =>
    rw [digits] at digit number
    have notQuote : first ≠ '"' := by
      rintro rfl
      cases digit '"' List.mem_cons_self
    simp only [if_neg notQuote, if_pos (List.all_eq_true.mpr digit), number, if_pos inRange]

theorem ofToken_of_symbol {token : Token} (atomic : token.kind.isAtom = true)
    (named : SymbolName token.text.toList) :
    ofToken token = .ok (.atom token (.symbol token.text)) := by
  obtain ⟨nonempty, plain, notDigits⟩ := named
  simp only [ofToken, atomic, if_true]
  cases text : token.text.toList with
  | nil => exact absurd text nonempty
  | cons first rest =>
    rw [text] at plain notDigits
    have notQuote := (plain first List.mem_cons_self).2.2.2
    simp only [if_neg notQuote, notDigits, Bool.false_eq_true, if_false]

theorem plain_of_isDigit {character : Char} (digit : character.isDigit = true) :
    Text.isBlank character = false ∧ character ≠ '(' ∧ character ≠ ')' ∧ character ≠ '"' := by
  refine ⟨?_, ?_, ?_, ?_⟩
  · have bounds : 48 ≤ character.toNat ∧ character.toNat ≤ 57 := by
      simpa [Char.isDigit, UInt32.le_iff_toNat_le] using digit
    simp [Text.isBlank]
    omega
  all_goals
    rintro rfl
    cases digit

theorem encode_int {value : Int64} (nonnegative : 0 ≤ value) :
    (Atom.int value).encode.toList = Nat.toDigits 10 value.toNatClampNeg := by
  rw [Atom.encode, Int64.toInt_eq_toNatClampNeg nonnegative]
  exact Nat.toList_repr

/-- The text of an atom is one lexeme, and its token stands for the atom. -/
theorem lexeme_encode {value : Atom} (writable : value.Writable) {rest : List Char}
    (bounds : Bounds rest) :
    ∃ kind, kind.isAtom = true ∧
      Token.Lexeme (value.encode.toList ++ rest) 0 kind value.encode.toList ∧
      ∀ token, token.kind = kind → token.text = value.encode →
        ofToken token = .ok (.atom token value) := by
  cases value with
  | int value =>
    have nonnegative : 0 ≤ value := writable
    refine ⟨.atom, rfl, ?_, ?_⟩
    · rw [encode_int nonnegative]
      refine lexeme_plain Nat.toDigits_ne_nil (fun character member => ?_) bounds
      exact plain_of_isDigit (Nat.isDigit_of_mem_toDigits (by decide) (by decide) member)
    · intro token kind text
      have atomic : token.kind.isAtom = true := by rw [kind]; rfl
      have inRange : value.toNatClampNeg ≤ maxInt := Nat.le_pred_of_lt value.toNatClampNeg_lt
      rw [ofToken_of_digits atomic (by rw [text, encode_int nonnegative]) inRange,
        Int64.ofNat_toNatClampNeg value nonnegative]
  | string text =>
    have quoted : QuotedText text.toList := writable
    refine ⟨.string, rfl, lexeme_quoted quoted rest, ?_⟩
    intro token kind same
    have atomic : token.kind.isAtom = true := by rw [kind]; rfl
    obtain ⟨more, starts⟩ : ∃ more, token.text.toList = '"' :: more := by
      rw [same]
      exact List.head?_eq_some_iff.mp (List.head?_eq_getElem? ▸ quoted.opens)
    rw [ofToken_of_quote atomic starts, same]
    rfl
  | symbol name =>
    have named : SymbolName name.toList := writable
    refine ⟨.atom, rfl, lexeme_plain named.nonempty named.plain bounds, ?_⟩
    intro token kind same
    have atomic : token.kind.isAtom = true := by rw [kind]; rfl
    rw [ofToken_of_symbol atomic (by rw [same]; exact named), same]
    rfl

/-! ## Lists -/

/-- In front of a bound, the text of a form is cut into tokens that derive the same form. -/
def Rereads (form : Form) : Prop :=
  ∀ (position : Position) (rest : List Char), Bounds rest → ∃ read tokens,
    Token.scanFrom position 0 (form.encode.toList ++ rest) =
      tokens ++ Token.scanFrom (position.after form.encode.toList) 0 rest ∧
    Reader.Derives read tokens ∧ read.same form = true

theorem rereads_atom {token : Option Token} {value : Atom} (writable : value.Writable) :
    Rereads (.atom token value) := by
  intro position rest bounds
  obtain ⟨kind, atomic, lexeme, read⟩ := lexeme_encode writable bounds
  refine ⟨_, [⟨kind, value.encode, position⟩], ?_, .atom atomic (read _ rfl rfl), ?_⟩
  · rw [encode, lexeme.scanFrom_eq (List.drop_zero) position, String.ofList_toList]
    rfl
  · simp only [same, beq_self_eq_true]

/-- The texts of elements, with a space between them. -/
def itemsText (items : List Form) : List Char :=
  (" ".intercalate (encodeItems items)).toList

theorem itemsText_singleton (item : Form) : itemsText [item] = item.encode.toList := by
  simp [itemsText]

theorem itemsText_cons_cons (first second : Form) (others : List Form) :
    itemsText (first :: second :: others) =
      first.encode.toList ++ ([' '] ++ itemsText (second :: others)) := by
  simp [itemsText]

theorem toList_encode_list (token : Option Token) (label : Option Nat) (items : List Form) :
    (Form.list token label items).encode.toList = ['('] ++ (itemsText items ++ [')']) := by
  simp [encode, itemsText]

/-- The texts of elements are cut into the tokens of all of them. -/
theorem items_reread {items : List Form} (each : ∀ item ∈ items, Rereads item)
    (position : Position) (rest : List Char) :
    ∃ reads tokens,
      Token.scanFrom position 0 (itemsText items ++ ')' :: rest) =
        tokens ++ Token.scanFrom (position.after (itemsText items)) 0 (')' :: rest) ∧
      Reader.DerivesAll reads tokens ∧ sameItems reads items = true := by
  induction items generalizing position with
  | nil => exact ⟨[], [], rfl, .nil, rfl⟩
  | cons first others ih =>
    obtain ⟨rereads, each'⟩ := List.forall_mem_cons.mp each
    cases others with
    | nil =>
      have bounds : Bounds (')' :: rest) := by simp [Bounds]
      obtain ⟨read, tokens, scanned, derives, sameRead⟩ := rereads position _ bounds
      refine ⟨[read], tokens, ?_, derives.single, ?_⟩
      · rw [itemsText_singleton]
        exact scanned
      · simp [sameItems, sameRead]
    | cons second others =>
      have space : ∀ character ∈ [' '], Text.isBlank character = true := by simp [Text.isBlank]
      have bounds : Bounds ([' '] ++ (itemsText (second :: others) ++ ')' :: rest)) := by
        simp [Bounds]
      obtain ⟨read, tokens, scanned, derives, sameRead⟩ := rereads position _ bounds
      obtain ⟨reads, tokens', scanned', derives', sameReads⟩ :=
        ih each' ((position.after first.encode.toList).after [' '])
      refine ⟨read :: reads, tokens ++ tokens', ?_, derives.single.append derives', ?_⟩
      · simp only [itemsText_cons_cons, List.append_assoc, Position.after_append]
        rw [scanned, Token.scanFrom_blanks space, scanned']
      · rw [sameItems, sameRead, sameReads]
        rfl

theorem scanFrom_openList (position : Position) (rest : List Char) :
    Token.scanFrom position 0 (['('] ++ rest) =
      ⟨.openList, "(", position⟩ :: Token.scanFrom (position.after ['(']) 0 rest := rfl

theorem scanFrom_closeList (position : Position) (rest : List Char) :
    Token.scanFrom position 0 (')' :: rest) =
      ⟨.closeList, ")", position⟩ :: Token.scanFrom (position.after [')']) 0 rest := rfl

theorem rereads_list {token : Option Token} {label : Option Nat} {items : List Form}
    (each : ∀ item ∈ items, Rereads item) : Rereads (.list token label items) := by
  intro position rest bounds
  obtain ⟨reads, tokens, scanned, derives, sameReads⟩ :=
    items_reread each (position.after ['(']) rest
  let opener : Token := ⟨.openList, "(", position⟩
  let closer : Token := ⟨.closeList, ")", (position.after ['(']).after (itemsText items)⟩
  have enclosed : Reader.Derives (.list opener none reads) (opener :: (tokens ++ [closer])) :=
    derives.enclose rfl rfl
  refine ⟨_, _, ?_, enclosed, ?_⟩
  · simp only [toList_encode_list, List.append_assoc, Position.after_append]
    rw [scanFrom_openList, List.singleton_append, scanned, scanFrom_closeList]
    simp [opener, closer]
  · rw [same]
    exact sameReads

/-- The text of a form that could have been read is cut into tokens that derive the same form. -/
theorem Writable.rereads {form : Form} (writable : form.Writable) : Rereads form := by
  induction writable with
  | atom writable => exact rereads_atom writable
  | list each ih => exact rereads_list ih

/-! ## Whole programs -/

theorem exists_ne_endOfInput {form : Form} {tokens : List Token}
    (derives : Reader.Derives form tokens) : ∃ token ∈ tokens, token.kind ≠ .endOfInput := by
  cases derives with
  | @atom token _ kind _ =>
    refine ⟨token, List.mem_singleton_self token, ?_⟩
    intro ends
    rw [ends] at kind
    cases kind
  | @list opener _ _ opens =>
    refine ⟨opener, List.mem_cons_self, ?_⟩
    intro ends
    cases opens.symm.trans ends

/-- Tokens that derive a form are read as that form. -/
theorem readOne_of_derives {form : Form} {tokens : List Token}
    (derives : Reader.Derives form tokens) (position : Position) :
    readOne (tokens ++ [Token.endAt position]) = .ok form := by
  obtain ⟨token, member, visible⟩ := exists_ne_endOfInput derives
  have notAll : ¬(tokens ++ [Token.endAt position]).all fun token => token.kind == .endOfInput := by
    intro all
    have ends := List.all_eq_true.mp all token (List.mem_append_left _ member)
    exact visible (beq_iff_eq.mp ends)
  have atEnd : ∀ token ∈ [Token.endAt position].head?, token.kind = .endOfInput := by
    simp [Token.endAt]
  rw [readOne, if_neg notAll, derives.single.readAll_eq atEnd]
  rfl

theorem Writable.parse_encode {form : Form} (writable : form.Writable) :
    ∃ read, parse form.encode.toList = .ok read ∧ read.same form = true := by
  obtain ⟨read, tokens, scanned, derives, sameRead⟩ :=
    writable.rereads Position.start [] (by simp [Bounds])
  have scanned' : Token.scan form.encode.toList = tokens := by
    simpa [Token.scan, Token.scanFrom] using scanned
  refine ⟨read, ?_, sameRead⟩
  rw [parse, Token.tokenize, scanned']
  exact readOne_of_derives derives _

/-- Every form that could have been read is read back from its text, and so two such forms with the
same text are the same. -/
theorem parse_encode_same (form : Form) (writable : form.Writable) :
    (∃ read, parse form.encode.toList = .ok read ∧ read.same form = true) ∧
      ∀ other : Form, other.Writable → other.encode = form.encode → other.same form = true := by
  obtain ⟨read, parsed, sameRead⟩ := writable.parse_encode
  refine ⟨⟨read, parsed, sameRead⟩, ?_⟩
  intro other writable' text
  obtain ⟨read', parsed', sameRead'⟩ := writable'.parse_encode
  rw [text, parsed] at parsed'
  cases parsed'
  exact same_of_same_same read sameRead' sameRead

/-- `(f ""a (b" 9223372036854775807 ())`: the string holds a quote, a space and a parenthesis. -/
def crowdedCall : Form :=
  ofList [symbol "f", string "\"\"a (b\"", int 9223372036854775807, ofList []]

theorem parse_encode_same_crowded_call :
    crowdedCall.Writable ∧
      ∃ read, parse crowdedCall.encode.toList = .ok read ∧ read.same crowdedCall = true := by
  have named : SymbolName "f".toList := ⟨by simp, by simp [Text.isBlank], by decide⟩
  have quoted : QuotedText "\"\"a (b\"".toList := by
    have inner : ∀ index, index < 6 → 2 ≤ index → "\"\"a (b\"".toList[index]? ≠ some '"' := by
      decide
    refine ⟨by decide, by decide, by decide, by decide, ?_⟩
    intro index low high
    exact inner index (Nat.lt_succ_of_le high) low
  have nonnegative : (0 : Int64) ≤ 9223372036854775807 := by decide
  have writable : crowdedCall.Writable := by
    refine .list ?_
    simp only [List.forall_mem_cons]
    exact ⟨.atom named, .atom quoted, .atom nonnegative, .list nofun, nofun⟩
  exact ⟨writable, (parse_encode_same crowdedCall writable).1⟩

end Form

end MiniLisp
