import MiniLisp.Trace
import MiniLisp.Proofs.Trace.Nesting

/-!
# Traces as they are written

A line of a trace shows by its indentation how deep it is, and by its first word whether it is a
call or a result.  That is what was recorded, unless the line is too deep to be indented: then it
shows neither.  So the lines of a well nested trace are well nested themselves exactly if no call
that is indented contains a line that is not.
-/

namespace MiniLisp

open Trace

/-! ## What is recorded -/

/-- What an event marks in a trace. -/
def TraceEvent.kind : TraceEvent → Bracket.Kind
  | form _ _ _ => .other
  | call _ _ => .call
  | result _ => .result

/-- What an entry is in a trace. -/
def TraceEntry.bracket (entry : TraceEntry) : Bracket :=
  ⟨entry.event.kind, entry.depth⟩

namespace Trace

/-- A trace that was broken off: it is the beginning of a well nested one in which no more calls
begin, and of two calls that do not return the later one is deeper. -/
structure BrokenOff (word : List Bracket) : Prop where
  completion : ∃ completion, (∀ bracket ∈ completion, bracket.kind ≠ .call) ∧
    WellNested (word ++ completion)
  increasing : ∀ call call' opening opening', call < call' → Active word call opening →
    Active word call' opening' → opening.depth < opening'.depth

/-- What the trace of an evaluation has to be: well nested if the evaluation comes to a value, and
broken off if it fails. -/
structure Fits {α : Type} (outcome : Except Stop α) (word : List Bracket) : Prop where
  wellNested : ∀ value, outcome = .ok value → WellNested word
  brokenOff : ∀ stop, outcome = .error stop → BrokenOff word

theorem fits_ok_iff {α : Type} {value : α} {word : List Bracket} :
    Fits (.ok value) word ↔ WellNested word :=
  ⟨fun fits => fits.wellNested value rfl, fun nested => ⟨fun _ _ => nested, nofun⟩⟩

theorem fits_error_iff {α : Type} {stop : Stop} {word : List Bracket} :
    Fits (.error stop : Except Stop α) word ↔ BrokenOff word :=
  ⟨fun fits => fits.brokenOff stop rfl, fun broken => ⟨nofun, fun _ _ => broken⟩⟩

variable {word completion : List Bracket} {floor depth call result : Nat}

theorem Pending.brokenOff (pending : Pending floor word) : BrokenOff word := by
  obtain ⟨completion, results, whole⟩ := pending.completion
  refine ⟨⟨completion, ?_, whole.closed.wellNested⟩, fun _ _ _ _ => pending.increasing⟩
  intro bracket member calls
  cases (results bracket member).symm.trans calls

/-! ## What a line shows -/

/-- The number of spaces in front of a line. -/
def indent (line : String) : Nat :=
  (line.toList.takeWhile (· == ' ')).length

/-- What stands behind these spaces. -/
def words (line : String) : List Char :=
  line.toList.dropWhile (· == ' ')

/-- What a line shows: calls begin with `apply` and results with an arrow, and the indentation tells
the depth. -/
def shown (line : String) : Bracket where
  kind :=
    if "apply ".toList.isPrefixOf (words line) then .call
    else if "=> ".toList.isPrefixOf (words line) then .result
    else .other
  depth := indent line

/-- A bracket that is not too deep for indentation. -/
def Bracket.Indented (bracket : Bracket) : Prop :=
  2 * bracket.depth ≤ TraceEntry.maxWidth

/-- What is left of a bracket when it is written: without indentation it marks nothing. -/
def Bracket.written (bracket : Bracket) : Bracket :=
  if 2 * bracket.depth ≤ TraceEntry.maxWidth then ⟨bracket.kind, 2 * bracket.depth⟩ else ⟨.other, 0⟩

theorem Bracket.written_of_indented {bracket : Bracket} (indented : bracket.Indented) :
    bracket.written = ⟨bracket.kind, 2 * bracket.depth⟩ :=
  if_pos indented

theorem Bracket.written_of_not_indented {bracket : Bracket} (deep : ¬bracket.Indented) :
    bracket.written = ⟨.other, 0⟩ :=
  if_neg deep

/-- What marks something when it is written is indented. -/
theorem Bracket.indented_of_kind_written {bracket : Bracket}
    (marks : bracket.written.kind ≠ .other) : bracket.Indented := by
  by_contra deep
  rw [written_of_not_indented deep] at marks
  exact marks rfl

end Trace

/-- The word that introduces an event. -/
def TraceEvent.keyword : TraceEvent → String
  | form special _ _ => special.name
  | call _ _ => "apply"
  | result _ => "=>"

theorem TraceEvent.exists_render (mark : ScopeId → String) (event : TraceEvent) :
    ∃ rest, (event.render mark).toList = event.keyword.toList ++ ' ' :: rest := by
  have introduced : event.keyword.toList ++ [' '] <+: (event.render mark).toList := by
    cases event <;> simp [keyword, render, toString]
  obtain ⟨rest, same⟩ := introduced
  exact ⟨rest, by rw [← same, List.append_assoc, List.singleton_append]⟩

namespace TraceEntry

theorem exists_render (mark : ScopeId → String) (entry : TraceEntry) :
    ∃ rest, (entry.render mark).toList =
      entry.margin.toList ++ (entry.event.keyword.toList ++ ' ' :: rest) := by
  obtain ⟨rest, introduced⟩ := entry.event.exists_render mark
  simp only [render]
  split
  · exact ⟨rest, by rw [String.toList_append, introduced]⟩
  · exact ⟨rest ++ ['\n'], by simp [introduced]⟩

/-- A line shows what was recorded, as far as it is indented. -/
theorem shown_render (mark : ScopeId → String) (entry : TraceEntry) :
    shown (entry.render mark) = entry.bracket.written := by
  obtain ⟨rest, written⟩ := entry.exists_render mark
  obtain ⟨log, depth, event⟩ := entry
  rw [shown, indent, words, written, margin, Bracket.written, bracket]
  split
  · -- No keyword begins with a space.
    obtain ⟨⟨⟩ | _ | _⟩ := event <;>
      simp [TraceEvent.keyword, TraceEvent.kind, SpecialForm.name]
  · simp

end TraceEntry

namespace Trace

variable {word completion : List Bracket} {floor depth call result position : Nat}

/-! ## Legible traces -/

/-- A position lies in the call at another one: it comes later, and nothing behind the call up to it
is as high as the call. -/
structure Within (word : List Bracket) (depth call position : Nat) : Prop where
  later : call < position
  deeper : ∀ between bracket, call < between → between ≤ position → word[between]? = some bracket →
    depth < bracket.depth

/-- A call that is indented contains nothing that is not. -/
def Legible (word : List Bracket) : Prop :=
  ∀ call position opening inner, word[call]? = some opening → opening.kind = .call →
    opening.Indented → word[position]? = some inner → Within word opening.depth call position →
      inner.Indented

theorem legible_of_indented (indented : ∀ bracket ∈ word, bracket.Indented) : Legible word :=
  fun _ _ _ inner _ _ _ present _ => indented inner (List.mem_of_getElem? present)

theorem Returns.within (returns : Returns word depth call result) (behind : call < position)
    (ahead : position < result) : Within word depth call position :=
  ⟨behind, fun between bracket later upTo => returns.deeper between bracket later
    (Nat.lt_of_le_of_lt upTo ahead)⟩

/-- In a legible trace, what returns does so in writing. -/
theorem Returns.written (returns : Returns word depth call result) (legible : Legible word)
    (indented : 2 * depth ≤ TraceEntry.maxWidth) :
    Returns (word.map Bracket.written) (2 * depth) call result := by
  obtain ⟨opening, found, calls, rfl⟩ := returns.opens
  obtain ⟨closing, found', comes, level⟩ := returns.closes
  have indented' : closing.Indented := by
    rw [Bracket.Indented, level]
    exact indented
  refine ⟨returns.later, ⟨opening.written, ?_, ?_⟩, ⟨closing.written, ?_, ?_⟩, ?_⟩
  · rw [List.getElem?_map, found]
    rfl
  · rw [Bracket.written_of_indented indented]
    exact ⟨calls, rfl⟩
  · rw [List.getElem?_map, found']
    rfl
  · rw [Bracket.written_of_indented indented', ← level]
    exact ⟨comes, rfl⟩
  · intro between bracket behind ahead present
    rw [List.getElem?_map] at present
    obtain ⟨inner, there, rfl⟩ := Option.map_eq_some_iff.mp present
    have deeper := returns.deeper between inner behind ahead there
    rw [Bracket.written_of_indented
      (legible call between opening inner found calls indented there (returns.within behind ahead))]
    exact Nat.mul_lt_mul_of_pos_left deeper Nat.two_pos

theorem Closed.written (closed : Closed word) (legible : Legible word) :
    Closed (word.map Bracket.written) := by
  have recorded : ∀ {index : Nat} {bracket : Bracket},
      (word.map Bracket.written)[index]? = some bracket → bracket.kind ≠ .other →
        ∃ found, word[index]? = some found ∧ found.Indented ∧
          bracket = ⟨found.kind, 2 * found.depth⟩ := by
    intro index bracket present marks
    rw [List.getElem?_map] at present
    obtain ⟨found, there, rfl⟩ := Option.map_eq_some_iff.mp present
    have indented := Bracket.indented_of_kind_written marks
    exact ⟨found, there, indented, Bracket.written_of_indented indented⟩
  constructor
  · intro call opening present calls
    obtain ⟨found, there, indented, rfl⟩ := recorded present (by rw [calls]; decide)
    obtain ⟨result, returns⟩ := closed.calls call found there calls
    exact ⟨result, returns.written legible indented⟩
  · intro result closing present comes
    obtain ⟨found, there, indented, rfl⟩ := recorded present (by rw [comes]; decide)
    obtain ⟨call, returns⟩ := closed.results result found there comes
    exact ⟨call, returns.written legible indented⟩

/-- If the lines are the beginning of well nested ones, the trace is legible: the result of a call
that is indented stands behind everything in the call. -/
theorem legible_of_wellNested_append
    (nested : WellNested (word.map Bracket.written ++ completion)) : Legible word := by
  have written : ∀ {index : Nat} {bracket : Bracket}, word[index]? = some bracket →
      (word.map Bracket.written ++ completion)[index]? = some bracket.written := by
    intro index bracket present
    have inside := (List.getElem?_eq_some_iff.mp present).1
    rw [List.getElem?_append_left (by simpa using inside), List.getElem?_map, present]
    rfl
  intro call position opening inner found calls indented present within
  by_contra deep
  have begins := Bracket.written_of_indented indented
  obtain ⟨result, returns, -⟩ :=
    nested.calls call opening.written (written found) (by rw [begins]; exact calls)
  have behind : position < result := by
    by_contra notBehind
    have upTo := Nat.le_of_not_lt notBehind
    have inside : result < word.length :=
      Nat.lt_of_le_of_lt upTo (List.getElem?_eq_some_iff.mp present).1
    obtain ⟨closing, found', comes, level⟩ := returns.closes
    have there := List.getElem?_eq_getElem inside
    rw [written there] at found'
    cases found'
    have indented' := Bracket.indented_of_kind_written (by rw [comes]; decide)
    have deeper := within.deeper result word[result] returns.later upTo there
    rw [Bracket.written_of_indented indented', begins] at level
    simp only at level
    omega
  have deeper := returns.deeper position inner.written within.later behind (written present)
  rw [Bracket.written_of_not_indented deep] at deeper
  cases deeper

/-- The results that make a trace whole lie in calls that have a part in the trace. -/
theorem Legible.append (legible : Legible word) (closed : Closed (word ++ completion))
    (results : ∀ bracket ∈ completion, bracket.kind = .result) :
    Legible (word ++ completion) := by
  have calls_inside : ∀ {index : Nat} {bracket : Bracket},
      (word ++ completion)[index]? = some bracket → bracket.kind = .call →
        word[index]? = some bracket := by
    intro index bracket present calls
    rcases getElem?_append_cases present with here | ⟨rest, rfl, there⟩
    · exact here
    · cases (results bracket (List.mem_of_getElem? there)).symm.trans calls
  have shorten : ∀ {depth call position}, position < word.length →
      Within (word ++ completion) depth call position → Within word depth call position := by
    intro depth call position inside within
    refine ⟨within.later, fun between bracket behind upTo present => ?_⟩
    apply within.deeper between bracket behind upTo
    rw [List.getElem?_append_left (Nat.lt_of_le_of_lt upTo inside)]
    exact present
  intro call position opening inner found calls indented present within
  have found' := calls_inside found calls
  rcases getElem?_append_cases present with here | ⟨rest, rfl, there⟩
  · have inside := (List.getElem?_eq_some_iff.mp here).1
    exact legible call position opening inner found' calls indented here (shorten inside within)
  · -- The call of this result lies in the other call, and it is as deep as its result.
    have comes := results inner (List.mem_of_getElem? there)
    obtain ⟨call', returns⟩ := closed.results _ inner present comes
    obtain ⟨opening', met, calls', level⟩ := returns.opens
    have met' := calls_inside met calls'
    have deeper := within.deeper _ inner within.later (Nat.le_refl _) present
    have between : call < call' := by
      rcases Nat.lt_trichotomy call call' with later | rfl | earlier
      · exact later
      · rw [found] at met
        cases met
        omega
      · have higher := returns.deeper call opening earlier within.later found
        omega
    have inside : Within (word ++ completion) opening.depth call call' :=
      ⟨between, fun index bracket behind upTo => within.deeper index bracket behind
        (Nat.le_trans upTo (Nat.le_of_lt returns.later))⟩
    have indented' := legible call call' opening opening' found' calls indented met'
      (shorten (List.getElem?_eq_some_iff.mp met').1 inside)
    rwa [Bracket.Indented, ← level]

/-- The lines of a whole trace are well nested exactly if the trace is legible. -/
theorem Closed.wellNested_written_iff (closed : Closed word) :
    WellNested (word.map Bracket.written) ↔ Legible word := by
  constructor
  · intro nested
    apply @legible_of_wellNested_append word []
    rwa [List.append_nil]
  · exact fun legible => (closed.written legible).wellNested

/-- The lines of a trace that was broken off look like that exactly if the trace is legible. -/
theorem Pending.brokenOff_written_iff (pending : Pending floor word) :
    BrokenOff (word.map Bracket.written) ↔ Legible word := by
  constructor
  · rintro ⟨⟨completion, -, nested⟩, -⟩
    exact legible_of_wellNested_append nested
  · intro legible
    obtain ⟨completion, results, whole⟩ := pending.completion
    refine ⟨⟨completion.map Bracket.written, ?_, ?_⟩, ?_⟩
    · rw [List.forall_mem_map]
      intro bracket member calls
      have indented := Bracket.indented_of_kind_written (by rw [calls]; decide)
      rw [Bracket.written_of_indented indented] at calls
      cases (results bracket member).symm.trans calls
    · rw [← List.map_append]
      exact (whole.closed.written (legible.append whole.closed results)).wellNested
    · have recorded : ∀ {call opening}, Active (word.map Bracket.written) call opening →
          ∃ found, Active word call found ∧ opening.depth = 2 * found.depth := by
        rintro call opening ⟨present, calls, unanswered⟩
        rw [List.getElem?_map] at present
        obtain ⟨found, there, rfl⟩ := Option.map_eq_some_iff.mp present
        have indented := Bracket.indented_of_kind_written (by rw [calls]; decide)
        rw [Bracket.written_of_indented indented] at calls unanswered ⊢
        refine ⟨found, ⟨there, calls, fun result returns => ?_⟩, rfl⟩
        exact unanswered result (returns.written legible indented)
      intro call call' opening opening' earlier active active'
      obtain ⟨found, met, depth⟩ := recorded active
      obtain ⟨found', met', depth'⟩ := recorded active'
      have deeper := pending.increasing earlier met met'
      omega

end Trace

end MiniLisp
