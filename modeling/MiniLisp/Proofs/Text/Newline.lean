import MiniLisp.Text.Utf8

/-!
# Bytes around a newline

The byte of a newline continues no character.  Where one stands between two sequences of bytes, even
a character that the first of them cuts off in the middle is read as if nothing followed, and the
second is read on its own.  No longer sequence of bytes stands for a newline, so a text has as many
of them as its bytes.
-/

namespace MiniLisp.Text

/-- The byte of a newline. -/
def newlineByte : UInt8 := 0x0a

theorem isContinuation_newlineByte : isContinuation newlineByte = false := rfl

theorem isSecond_newlineByte (lead : UInt8) : isSecond lead newlineByte = false := by
  rw [isSecond]
  repeat' split
  all_goals rfl

/-- A character takes no byte from behind a newline. -/
theorem character?_newline (lead : UInt8) (rest more : List UInt8) :
    character? lead (rest ++ newlineByte :: more) = character? lead rest := by
  -- At most three bytes are looked at, so the newline is one of these or plays no part.
  match rest with
  | [] =>
    cases more with
    | nil => simp [character?, isSecond_newlineByte]
    | cons next more =>
      cases more <;> simp [character?, isSecond_newlineByte]
  | [second] => cases more <;> simp [character?, isContinuation_newlineByte]
  | [second, third] => simp [character?, isContinuation_newlineByte]
  | second :: third :: fourth :: rest => rfl

/-- A character ends where the bytes end, at the latest. -/
theorem further_le_length {lead : UInt8} {rest : List UInt8} {character : Char} {further : Nat}
    (read : character? lead rest = some (character, further)) : further ≤ rest.length := by
  revert read
  fun_cases character? lead rest
  all_goals
    intro read
    cases read
  all_goals simp

theorem glyphsFrom_newline {covered : Nat} {left : List UInt8} (inside : covered ≤ left.length)
    (right : List UInt8) :
    glyphsFrom covered (left ++ newlineByte :: right) =
      glyphsFrom covered left ++ .char '\n' :: glyphs right := by
  fun_induction glyphsFrom covered left with
  | case1 covered =>
    cases Nat.le_zero.mp inside
    rfl
  | case2 covered lead rest ih => exact ih (Nat.le_of_succ_le_succ inside)
  | case3 lead rest character further read ih =>
    rw [List.cons_append, glyphsFrom, character?_newline, read]
    exact congrArg _ (ih (further_le_length read))
  | case4 lead rest stray ih =>
    rw [List.cons_append, glyphsFrom, character?_newline, stray]
    exact congrArg _ (ih (Nat.zero_le _))

/-- What stands in front of a newline is read on its own, and so is what stands behind it. -/
theorem decode_newline (left right : List UInt8) :
    decode (left ++ newlineByte :: right) = decode left ++ '\n' :: decode right := by
  simp only [decode, glyphs, glyphsFrom_newline (Nat.zero_le _), characters_append]
  rfl

/-! ## Counting newlines -/

/-- A byte that may follow a lead byte continues a character, and the character that both begin is
not overlong. -/
theorem isSecond_bounds {lead second : UInt8} (follows : isSecond lead second = true) :
    0x80 ≤ second.toNat ∧ second.toNat ≤ 0xbf ∧ (lead = 0xe0 → 0xa0 ≤ second.toNat) ∧
      (lead = 0xf0 → 0x90 ≤ second.toNat) := by
  revert follows
  fun_cases isSecond lead second <;> intro follows
  all_goals simp_all [isContinuation, UInt8.le_iff_toNat_le]
  all_goals omega

theorem ne_newlineByte_of_isSecond {lead second : UInt8} (follows : isSecond lead second = true) :
    newlineByte ≠ second := by
  intro newline
  rw [← newline, isSecond_newlineByte] at follows
  cases follows

theorem ne_newlineByte_of_isContinuation {byte : UInt8} (continues : isContinuation byte = true) :
    newlineByte ≠ byte := by
  intro newline
  rw [← newline, isContinuation_newlineByte] at continues
  cases continues

theorem ofNat_eq_newline_iff {code : Nat} : Char.ofNat code = '\n' ↔ code = 10 := by
  constructor
  · intro newline
    have same : (Char.ofNat code).toNat = 10 := by
      rw [newline]
      rfl
    by_cases valid : code.isValidChar
    · rw [Char.ofNat, dif_pos valid] at same
      exact same
    · rw [Char.ofNat, dif_neg valid] at same
      cases same
  · intro same
    rw [same]

/-- A character is a newline exactly if its first byte is one, and none of its further bytes is. -/
theorem character?_newline_iff {lead : UInt8} {rest : List UInt8} {character : Char} {further : Nat}
    (read : character? lead rest = some (character, further)) :
    (character = '\n' ↔ lead = newlineByte) ∧ newlineByte ∉ rest.take further := by
  have notNewline : ¬lead < 0x80 → lead ≠ newlineByte := by
    intro long newline
    rw [newline] at long
    exact long (by decide)
  revert read
  fun_cases character? lead rest <;> intro read <;> cases read
  case case1 short => simp [ofNat_eq_newline_iff, newlineByte, ← UInt8.toNat_inj]
  case case2 long range second rest follows =>
    have bounds := isSecond_bounds follows
    constructor
    · apply iff_of_false _ (notNewline long)
      simp only [Bool.and_eq_true, decide_eq_true_eq, UInt8.le_iff_toNat_le,
        UInt8.reduceToNat] at range
      rw [ofNat_eq_newline_iff, payload]
      omega
    · simp [ne_newlineByte_of_isSecond follows]
  case case5 long _ range second third rest follows =>
    simp only [Bool.and_eq_true] at follows
    have bounds := isSecond_bounds follows.1
    constructor
    · apply iff_of_false _ (notNewline long)
      simp only [Bool.and_eq_true, decide_eq_true_eq, UInt8.le_iff_toNat_le, ← UInt8.toNat_inj,
        UInt8.reduceToNat] at range bounds
      simp only [ofNat_eq_newline_iff, payload]
      omega
    · simp [ne_newlineByte_of_isSecond follows.1, ne_newlineByte_of_isContinuation follows.2]
  case case8 long _ _ range second third fourth rest follows high =>
    simp only [Bool.and_eq_true] at follows
    have bounds := isSecond_bounds follows.1.1
    constructor
    · apply iff_of_false _ (notNewline long)
      simp only [Bool.and_eq_true, decide_eq_true_eq, UInt8.le_iff_toNat_le, ← UInt8.toNat_inj,
        UInt8.reduceToNat] at range bounds
      simp only [ofNat_eq_newline_iff, high, payload]
      omega
    · simp [ne_newlineByte_of_isSecond follows.1.1, ne_newlineByte_of_isContinuation follows.1.2,
        ne_newlineByte_of_isContinuation follows.2]

theorem count_glyphsFrom (covered : Nat) (bytes : List UInt8) :
    (characters (glyphsFrom covered bytes)).count '\n' =
      (bytes.drop covered).count newlineByte := by
  fun_induction glyphsFrom covered bytes with
  | case1 covered => simp [characters]
  | case2 covered lead rest ih => simpa using ih
  | case3 lead rest character further read ih =>
    obtain ⟨same, unbroken⟩ := character?_newline_iff read
    have behind : rest.count newlineByte = (rest.drop further).count newlineByte := by
      have joined := congrArg (List.count newlineByte) (List.take_append_drop further rest)
      rwa [List.count_append, List.count_eq_zero.mpr unbroken, Nat.zero_add, eq_comm] at joined
    simp only [characters, List.map_cons, Glyph.character, List.drop_zero, List.count_cons] at ih ⊢
    simp [ih, behind, same]
  | case4 lead rest stray ih =>
    have notNewline : lead ≠ newlineByte := by
      intro newline
      rw [newline] at stray
      cases stray
    simp only [characters, List.map_cons, Glyph.character, List.drop_zero, List.count_cons] at ih ⊢
    simp [ih, notNewline, replacement]

/-- A text has as many newlines as its bytes. -/
theorem count_decode (bytes : List UInt8) :
    (decode bytes).count '\n' = bytes.count newlineByte :=
  count_glyphsFrom 0 bytes

/-! ## Splitting -/

/-- What stands between two separators holds none. -/
theorem not_mem_of_mem_splitOn {α : Type} [BEq α] [LawfulBEq α] {separator : α} {items : List α} :
    ∀ piece ∈ items.splitOn separator, separator ∉ piece := by
  induction items with
  | nil => simp
  | cons first rest ih =>
    rw [List.splitOn_cons_eq_if_modifyHead]
    by_cases separates : first = separator
    · rw [if_pos (by simpa using separates)]
      exact List.forall_mem_cons.mpr ⟨by simp, ih⟩
    · rw [if_neg (by simpa using separates)]
      cases split : rest.splitOn separator with
      | nil => exact nofun
      | cons piece others =>
        rw [split] at ih
        obtain ⟨here, behind⟩ := List.forall_mem_cons.mp ih
        refine List.forall_mem_cons.mpr ⟨?_, behind⟩
        simp [here, Ne.symm separates]

end MiniLisp.Text
