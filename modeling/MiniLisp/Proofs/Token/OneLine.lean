import MiniLisp.Proofs.Token.Rescan

/-!
# Several lines on one line

A newline separates tokens like every other blank, but it also ends the line on which a string has
to close.  If a space takes its place, a quote that opened no string on its own line may open one
now, and the string closes at the next quote, on what was a later line.  Where this cannot happen a
text on one line has the lexemes that it had, and wherever it can happen it has others.
-/

namespace MiniLisp.Token

/-- A text on one line: a space stands in place of each newline. -/
def oneLine (text : List Char) : List Char :=
  text.map fun character => if character = '\n' then ' ' else character

/-- A token with a stray quote: an atom holds a quote only if none on its line closes a string with
it. -/
def Stray (token : Token) : Prop :=
  token.kind = .atom ∧ '"' ∈ token.text.toList

instance : DecidablePred Stray := fun token =>
  inferInstanceAs (Decidable (token.kind = .atom ∧ '"' ∈ token.text.toList))

/-- No quote follows on a later line than a stray quote. -/
def QuotesApart (lines : List (List Char)) : Prop :=
  lines.Pairwise fun line later => (∃ token ∈ scan line, token.Stray) → '"' ∉ later

instance (lines : List (List Char)) : Decidable (QuotesApart lines) :=
  inferInstanceAs (Decidable (lines.Pairwise _))

/-! ## Looking for a quote further on -/

variable {first : Char} {rest text more : List Char}

theorem quoteOnLine?_append_of_some {extent : Nat} (found : quoteOnLine? text = some extent)
    (more : List Char) : quoteOnLine? (text ++ more) = some extent := by
  induction text generalizing extent with
  | nil => cases found
  | cons first rest ih =>
    rw [quoteOnLine?] at found
    rw [List.cons_append, quoteOnLine?]
    split at found
    case isTrue quote => rw [if_pos quote, found]
    case isFalse unquoted =>
      rw [if_neg unquoted]
      split at found
      case isTrue => cases found
      case isFalse sameLine =>
        obtain ⟨further, found', rfl⟩ := Option.map_eq_some_iff.mp found
        rw [if_neg sameLine, ih found', Option.map_some]

theorem quoteOnLine?_isSome (unbroken : '\n' ∉ text) (quote : '"' ∈ text) :
    (quoteOnLine? text).isSome = true := by
  cases found : quoteOnLine? text with
  | some extent => rfl
  | none =>
    obtain ⟨offset, here⟩ := List.mem_iff_getElem?.mp quote
    obtain ⟨line, -, newline⟩ := quoteOnLine?_missing found here
    exact absurd (List.mem_of_getElem? newline) unbroken

/-- A quote that is found only behind a text is found at its end at the soonest. -/
theorem length_le_of_quoteOnLine? {extent : Nat} (missing : quoteOnLine? text = none)
    (found : quoteOnLine? (text ++ more) = some extent) : text.length ≤ extent := by
  induction text generalizing extent with
  | nil => exact Nat.zero_le _
  | cons first rest ih =>
    rw [quoteOnLine?] at missing
    rw [List.cons_append, quoteOnLine?] at found
    split at missing
    case isTrue => cases missing
    case isFalse unquoted =>
      rw [if_neg unquoted] at found
      split at found
      case isTrue => cases found
      case isFalse sameLine =>
        rw [if_neg sameLine] at missing
        obtain ⟨further, found', rfl⟩ := Option.map_eq_some_iff.mp found
        exact Nat.succ_le_succ (ih (Option.map_eq_none_iff.mp missing) found')

theorem stringExtent?_of_ne_quote (unquoted : first ≠ '"') (rest : List Char) :
    stringExtent? first rest = none := by
  cases rest with
  | nil => rfl
  | cons second rest => rw [stringExtent?, if_neg fun opens => unquoted opens.1]

theorem stringExtent?_append_of_some {extent : Nat} (found : stringExtent? first rest = some extent)
    (more : List Char) : stringExtent? first (rest ++ more) = some extent := by
  cases rest with
  | nil => cases found
  | cons second rest =>
    rw [stringExtent?] at found
    rw [List.cons_append, stringExtent?]
    split at found
    case isFalse => cases found
    case isTrue opens =>
      obtain ⟨further, found', rfl⟩ := Option.map_eq_some_iff.mp found
      rw [if_pos opens, quoteOnLine?_append_of_some found', Option.map_some]

theorem endsAtom_append_of_ends (ends : endsAtom first rest = true) (more : List Char) :
    endsAtom first (rest ++ more) = true := by
  simp only [endsAtom, Bool.or_eq_true] at ends ⊢
  refine ends.imp_right fun starts => ?_
  obtain ⟨extent, found⟩ := Option.isSome_iff_exists.mp starts
  rw [stringExtent?_append_of_some found more]
  rfl

theorem endsAtom_of_ne_quote (unquoted : first ≠ '"') (rest rest' : List Char) :
    endsAtom first rest = endsAtom first rest' := by
  rw [endsAtom, endsAtom, stringExtent?_of_ne_quote unquoted, stringExtent?_of_ne_quote unquoted]

/-! ## Where no quote is stray -/

theorem atomExtent_space (unstray : '"' ∉ text.take (atomExtent text)) (more : List Char) :
    atomExtent (text ++ ' ' :: more) = atomExtent text := by
  induction text with
  | nil => rfl
  | cons first rest ih =>
    rw [List.cons_append, atomExtent, atomExtent]
    cases ends : endsAtom first rest with
    | true => rw [endsAtom_append_of_ends ends, if_pos rfl, if_pos rfl]
    | false =>
      rw [atomExtent, ends] at unstray
      obtain ⟨unquoted, behind⟩ : '"' ≠ first ∧ '"' ∉ rest.take (atomExtent rest) := by
        simpa using unstray
      rw [endsAtom_of_ne_quote unquoted.symm _ rest, ends, ih behind]

theorem cut_space
    (unstray : (cut first rest).1 = some .atom → '"' ∉ first :: rest.take (cut first rest).2)
    (more : List Char) : cut first (rest ++ ' ' :: more) = cut first rest := by
  cases ends : endsAtom first rest with
  | false =>
    have atom := cut_atom ends
    rw [atom] at unstray
    obtain ⟨unquoted, behind⟩ := List.ne_and_not_mem_of_not_mem_cons (unstray rfl)
    rw [endsAtom_of_ne_quote unquoted.symm _ (rest ++ ' ' :: more)] at ends
    rw [atom, cut_atom ends, atomExtent_space behind]
  | true =>
    simp only [endsAtom, Bool.or_eq_true, beq_iff_eq] at ends
    rcases ends with ((rfl | rfl) | blank) | starts
    · rfl
    · rfl
    · rw [cut_blank blank, cut_blank blank]
    · obtain ⟨extent, found⟩ := Option.isSome_iff_exists.mp starts
      rw [cut_string found, cut_string (stringExtent?_append_of_some found _)]

/-- Where no atom holds a quote, a text is cut into the same tokens whatever follows behind a
space. -/
theorem scanFrom_space {position : Position} {covered : Nat} {left : List Char}
    (inside : covered ≤ left.length)
    (unstray : ∀ token ∈ scanFrom position covered left, ¬token.Stray) (more : List Char) :
    scanFrom position covered (left ++ ' ' :: more) =
      scanFrom position covered left ++ scanFrom (position.after left) 0 (' ' :: more) := by
  refine @scanFrom_append_of_cut _ (fun kind text => kind = .atom → '"' ∉ text) ?_ _ _ _ inside ?_
  · intro first rest whole
    exact cut_space (fun atom => whole .atom atom rfl) more
  · intro token member atom quote
    exact unstray token member ⟨atom, quote⟩

/-! ## Where a quote is stray -/

/-- On one line, a quote further on closes a string with every quote in front of it. -/
theorem stringExtent?_space (unbroken : '\n' ∉ rest) (unbroken' : '\n' ∉ more)
    (quote : '"' ∈ more) : (stringExtent? '"' (rest ++ ' ' :: more)).isSome = true := by
  cases rest with
  | nil => simp [stringExtent?, quoteOnLine?_isSome unbroken' quote]
  | cons second rest =>
    obtain ⟨sameLine, behind⟩ := List.ne_and_not_mem_of_not_mem_cons unbroken
    have found : (quoteOnLine? (rest ++ ' ' :: more)).isSome = true :=
      quoteOnLine?_isSome (by simp [behind, unbroken']) (by simp [quote])
    simp [stringExtent?, sameLine.symm, found]

theorem length_lt_of_stringExtent? {extent : Nat} (missing : stringExtent? '"' rest = none)
    (unbroken : '\n' ∉ rest) (found : stringExtent? '"' (rest ++ ' ' :: more) = some extent) :
    rest.length < extent := by
  cases rest with
  | nil =>
    obtain ⟨further, -, rfl⟩ : ∃ further, quoteOnLine? more = some further ∧
        further + 2 = extent := by
      simpa [stringExtent?] using found
    exact Nat.succ_pos _
  | cons second rest =>
    obtain ⟨sameLine, behind⟩ := List.ne_and_not_mem_of_not_mem_cons unbroken
    have missing' : quoteOnLine? rest = none := by
      simpa [stringExtent?, sameLine.symm] using missing
    obtain ⟨further, found', rfl⟩ : ∃ further, quoteOnLine? (rest ++ ' ' :: more) = some further ∧
        further + 2 = extent := by
      simpa [stringExtent?, sameLine.symm] using found
    exact Nat.succ_lt_succ (Nat.lt_succ_of_le (length_le_of_quoteOnLine? missing' found'))

theorem atomExtent_space_lt (unbroken : '\n' ∉ text) (unbroken' : '\n' ∉ more)
    (quote : '"' ∈ more) (stray : '"' ∈ text.take (atomExtent text)) :
    atomExtent (text ++ ' ' :: more) < atomExtent text := by
  induction text with
  | nil => cases stray
  | cons first rest ih =>
    have behind := List.not_mem_of_not_mem_cons unbroken
    rw [atomExtent] at stray
    rw [List.cons_append, atomExtent, atomExtent]
    cases ends : endsAtom first rest with
    | true =>
      rw [ends] at stray
      cases stray
    | false =>
      rw [ends, if_neg (by decide), List.take_succ_cons] at stray
      rw [if_neg Bool.false_ne_true]
      by_cases here : first = '"'
      · subst here
        have ends' : endsAtom '"' (rest ++ ' ' :: more) = true := by
          rw [endsAtom, stringExtent?_space behind unbroken' quote, Bool.or_true]
        rw [if_pos ends']
        exact Nat.succ_pos _
      · have shorter := ih behind ((List.mem_cons.mp stray).resolve_left (Ne.symm here))
        rw [endsAtom_of_ne_quote here _ rest, ends, if_neg (by decide)]
        exact Nat.succ_lt_succ shorter

theorem endsAtom_of_cut {extent : Nat} (atom : cut first rest = (some .atom, extent)) :
    endsAtom first rest = false := by
  rw [Bool.eq_false_iff]
  intro ends
  simp only [endsAtom, Bool.or_eq_true, beq_iff_eq] at ends
  rcases ends with ((rfl | rfl) | blank) | starts
  · cases atom
  · cases atom
  · rw [cut_blank blank] at atom
    cases atom
  · obtain ⟨further, found⟩ := Option.isSome_iff_exists.mp starts
    rw [cut_string found] at atom
    cases atom

/-- An atom with a stray quote is cut differently if a quote follows behind a space: it ends in
front of the stray quote, or it is a string that reaches behind the space. -/
theorem cut_space_ne (unbroken : '\n' ∉ first :: rest) (unbroken' : '\n' ∉ more)
    (quote : '"' ∈ more) {extent : Nat} (atom : cut first rest = (some .atom, extent))
    (stray : '"' ∈ first :: rest.take extent) :
    ∃ kind extent', cut first (rest ++ ' ' :: more) = (some kind, extent') ∧
      ((rest ++ ' ' :: more).take extent').length ≠ (rest.take extent).length := by
  have behind := List.not_mem_of_not_mem_cons unbroken
  have ends := endsAtom_of_cut atom
  obtain rfl : atomExtent rest = extent := by
    rw [cut_atom ends] at atom
    cases atom
    rfl
  by_cases here : first = '"'
  · subst here
    have missing : stringExtent? '"' rest = none := by
      simpa [endsAtom] using (Bool.or_eq_false_iff.mp ends).2
    obtain ⟨further, found⟩ :=
      Option.isSome_iff_exists.mp (stringExtent?_space behind unbroken' quote)
    refine ⟨_, _, cut_string found, ?_⟩
    have longer := length_lt_of_stringExtent? missing behind found
    have fits := extent_le_length '"' (rest ++ ' ' :: more)
    rw [cut_string found] at fits
    rw [List.length_take_of_le fits, List.length_take]
    omega
  · have shorter := atomExtent_space_lt behind unbroken' quote
      ((List.mem_cons.mp stray).resolve_left (Ne.symm here))
    rw [endsAtom_of_ne_quote here _ (rest ++ ' ' :: more)] at ends
    refine ⟨_, _, cut_atom ends, ?_⟩
    rw [List.length_take_of_le (atomExtent_le_length _),
      List.length_take_of_le (atomExtent_le_length _)]
    exact Nat.ne_of_lt shorter

/-- Up to the first stray quote the tokens are the same.  The token with that quote is another one,
so whatever the tokens behind it are, the lexemes differ there. -/
theorem scanFrom_space_ne {position : Position} {covered : Nat} {left : List Char}
    (unbroken : '\n' ∉ left) (unbroken' : '\n' ∉ more) (quote : '"' ∈ more)
    (stray : ∃ token ∈ scanFrom position covered left, token.Stray) (others : List String) :
    (scanFrom position covered (left ++ ' ' :: more)).map Token.text ≠
      (scanFrom position covered left).map Token.text ++ others := by
  fun_induction scanFrom position covered left with
  | case1 position covered =>
    obtain ⟨token, member, -⟩ := stray
    cases member
  | case2 position covered first rest ih => exact ih (List.not_mem_of_not_mem_cons unbroken) stray
  | case3 position first rest extent found ih =>
    have kept : cut first (rest ++ ' ' :: more) = cut first rest :=
      cut_space (by simp [found]) more
    rw [List.cons_append, scanFrom, kept, found]
    exact ih (List.not_mem_of_not_mem_cons unbroken) stray
  | case4 position first rest kind extent found ih =>
    rw [List.cons_append, scanFrom, List.map_cons]
    by_cases here : kind = .atom ∧ '"' ∈ first :: rest.take extent
    · obtain ⟨rfl, here⟩ := here
      obtain ⟨kind', extent', found', different⟩ := cut_space_ne unbroken unbroken' quote found here
      rw [found']
      intro same
      have heads := congrArg String.toList (List.cons.inj same).1
      simp only [String.toList_ofList] at heads
      exact different (congrArg List.length (List.cons.inj heads).2)
    · have kept : cut first (rest ++ ' ' :: more) = cut first rest := by
        apply cut_space
        rw [found]
        intro atom quote
        exact here ⟨Option.some.inj atom, quote⟩
      have fits := extent_le_length first rest
      rw [found] at fits
      rw [kept, found]
      simp only [List.map_cons, List.take_append_of_le_length fits, List.cons_append, ne_eq,
        List.cons.injEq, true_and]
      apply ih (List.not_mem_of_not_mem_cons unbroken)
      obtain ⟨token, member, stray⟩ := stray
      rcases List.mem_cons.mp member with rfl | member
      · exact absurd (by simpa [Stray] using stray) here
      · exact ⟨token, member, stray⟩

/-! ## Lines -/

/-- What stands on both sides of a space has the lexemes it has on its own, unless a stray quote in
front of the space meets a quote behind it. -/
theorem lexemes_space {line : List Char}
    (apart : (∃ token ∈ scan line, token.Stray) → '"' ∉ more) :
    lexemes (line ++ ' ' :: more) = lexemes line ++ lexemes more := by
  have split : scan (line ++ ' ' :: more) =
      scan line ++ scanFrom (Position.start.after line) 0 (' ' :: more) := by
    by_cases stray : ∃ token ∈ scan line, token.Stray
    · have unquoted : '"' ∉ ' ' :: more := by simpa using apart stray
      have separates : Separates (' ' :: more) :=
        ⟨by simp [Text.isBlank], quoteOnLine?_of_unquoted unquoted⟩
      exact scanFrom_append separates (Nat.zero_le _)
    · have unstray : ∀ token ∈ scan line, ¬token.Stray :=
        fun token member here => stray ⟨token, member, here⟩
      exact scanFrom_space (Nat.zero_le _) unstray more
  have blank : ∀ character ∈ [' '], Text.isBlank character = true := by
    simp [Text.isBlank]
  have skipped : scanFrom (Position.start.after line) 0 (' ' :: more) =
      scanFrom ((Position.start.after line).next ' ') 0 more := scanFrom_blanks blank _ more
  rw [lexemes, split, List.map_append, skipped, map_text_scanFrom _ Position.start]
  rfl

theorem lexemes_space_ne {line : List Char} (unbroken : '\n' ∉ line) (unbroken' : '\n' ∉ more)
    (stray : ∃ token ∈ scan line, token.Stray) (quote : '"' ∈ more) (others : List String) :
    lexemes (line ++ ' ' :: more) ≠ lexemes line ++ others :=
  scanFrom_space_ne unbroken unbroken' quote stray others

theorem mem_spaced_iff {character : Char} (visible : character ≠ ' ') {lines : List (List Char)} :
    character ∈ [' '].intercalate lines ↔ ∃ line ∈ lines, character ∈ line := by
  induction lines with
  | nil => simp
  | cons line rest ih =>
    cases rest with
    | nil => simp
    | cons next rest =>
      rw [List.intercalate_cons_cons, List.mem_append, List.mem_append, ih]
      simp [visible]

theorem lexemes_spaced_iff {lines : List (List Char)} (unbroken : ∀ line ∈ lines, '\n' ∉ line) :
    lexemes ([' '].intercalate lines) = lines.flatMap lexemes ↔ QuotesApart lines := by
  induction lines with
  | nil => exact iff_of_true rfl .nil
  | cons line rest ih =>
    cases rest with
    | nil => simp [QuotesApart]
    | cons next rest =>
      obtain ⟨here, behind⟩ := List.forall_mem_cons.mp unbroken
      have unbroken' : '\n' ∉ [' '].intercalate (next :: rest) := by
        rw [mem_spaced_iff (by decide)]
        rintro ⟨later, member, newline⟩
        exact behind later member newline
      have spaced : [' '].intercalate (line :: next :: rest) =
          line ++ ' ' :: [' '].intercalate (next :: rest) := by
        simp [List.intercalate_cons_cons]
      rw [spaced, List.flatMap_cons, QuotesApart, List.pairwise_cons, ← QuotesApart]
      by_cases crossing :
          (∃ token ∈ scan line, token.Stray) ∧ '"' ∈ [' '].intercalate (next :: rest)
      · obtain ⟨stray, quote⟩ := crossing
        apply iff_of_false (lexemes_space_ne here unbroken' stray quote _)
        rintro ⟨apart, -⟩
        obtain ⟨later, member, quote⟩ := (mem_spaced_iff (by decide)).mp quote
        exact apart later member stray quote
      · have apart := not_and.mp crossing
        have each : ∀ later ∈ next :: rest, (∃ token ∈ scan line, token.Stray) → '"' ∉ later := by
          intro later member stray quote
          exact apart stray ((mem_spaced_iff (by decide)).mpr ⟨later, member, quote⟩)
        rw [lexemes_space apart, List.append_right_inj, ih behind]
        exact (and_iff_right each).symm

theorem oneLine_append (left right : List Char) :
    oneLine (left ++ right) = oneLine left ++ oneLine right :=
  List.map_append

theorem oneLine_of_unbroken {line : List Char} (unbroken : '\n' ∉ line) : oneLine line = line := by
  induction line with
  | nil => rfl
  | cons first rest ih =>
    obtain ⟨here, behind⟩ := List.ne_and_not_mem_of_not_mem_cons unbroken
    rw [oneLine, List.map_cons, if_neg here.symm, ← oneLine, ih behind]

theorem oneLine_intercalate {lines : List (List Char)} (unbroken : ∀ line ∈ lines, '\n' ∉ line) :
    oneLine (['\n'].intercalate lines) = [' '].intercalate lines := by
  induction lines with
  | nil => rfl
  | cons line rest ih =>
    obtain ⟨here, behind⟩ := List.forall_mem_cons.mp unbroken
    cases rest with
    | nil => simpa using oneLine_of_unbroken here
    | cons next rest =>
      rw [List.intercalate_cons_cons, List.intercalate_cons_cons, oneLine_append, oneLine_append,
        oneLine_of_unbroken here, ih behind]
      rfl

/-- A text keeps its lexemes on one line exactly if no quote follows on a later line than a stray
quote. -/
theorem lexemes_oneLine_iff (text : List Char) :
    lexemes (oneLine text) = lexemes text ↔ QuotesApart (text.splitOn '\n') := by
  have unbroken : ∀ line ∈ text.splitOn '\n', '\n' ∉ line := Text.not_mem_of_mem_splitOn
  have whole : ['\n'].intercalate (text.splitOn '\n') = text := List.intercalate_splitOn _
  have spaced := oneLine_intercalate unbroken
  have separate := contents_joined (text.splitOn '\n')
  rw [whole] at spaced separate
  rw [spaced, ← map_snd_contents text, separate, List.map_flatMap]
  simp only [map_snd_contents]
  exact lexemes_spaced_iff unbroken

end MiniLisp.Token
