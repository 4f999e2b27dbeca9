import MiniLisp.Proofs.Repl.Script

/-!
# No line is lost

The lines of a session are divided into texts.  Put side by side, the lines of the texts are the
lines that were entered, in their order, and only what is unfinished at the end of the input is left
over.  A text ends with the first line that leaves nothing incomplete, so each line is asked for
with a prompt that tells whether some text is waiting for it.  What is handled are the texts that
are not blank, up to the first one that ends the session.
-/

namespace MiniLisp.Repl

/-- The lines of a text. -/
def linesOf (text : List Text.Glyph) : List (List Text.Glyph) :=
  text.splitOn (.char '\n')

/-- The text of some lines. -/
def joined (lines : List (List Text.Glyph)) : List Text.Glyph :=
  [.char '\n'].intercalate lines

/-- The first `count` of some lines are the beginning of a text that waits for more. -/
def Waits (lines : List (List Text.Glyph)) (count : Nat) : Prop :=
  incomplete (Text.characters (joined (lines.take count))) = true

/-- Whatever some lines begin with, it waits for more. -/
def AllWait (lines : List (List Text.Glyph)) : Prop :=
  ∀ count, 0 < count → count ≤ lines.length → Waits lines count

/-- Lines are divided into texts and lines that are left over.  Each text is complete, but no line
earlier; what is left over is not complete with any of its lines. -/
structure Divides (lines : List (List Text.Glyph)) (complete : List (List Text.Glyph))
    (unfinished : List (List Text.Glyph)) : Prop where
  inOrder : complete.flatMap linesOf ++ unfinished = lines
  finished : ∀ text ∈ complete, incomplete (Text.characters text) = false
  noSooner : ∀ text ∈ complete, ∀ count, 0 < count → count < (linesOf text).length →
    Waits (linesOf text) count
  leftOver : AllWait unfinished

variable {lines waiting rest : List (List Text.Glyph)} {line text : List Text.Glyph}

/-! ## Texts and their lines -/

theorem linesOf_joined (some : lines ≠ []) (unbroken : ∀ line ∈ lines, .char '\n' ∉ line) :
    linesOf (joined lines) = lines :=
  List.splitOn_intercalate _ unbroken some

theorem joined_linesOf (text : List Text.Glyph) : joined (linesOf text) = text :=
  List.intercalate_splitOn _

theorem joined_cons_cons (first second : List Text.Glyph) (rest : List (List Text.Glyph)) :
    joined (first :: second :: rest) = first ++ .char '\n' :: joined (second :: rest) := by
  simp [joined, List.intercalate_cons_cons]

theorem joined_concat (some : waiting ≠ []) (line : List Text.Glyph) :
    joined (waiting ++ [line]) = joined waiting ++ .char '\n' :: line := by
  induction waiting with
  | nil => exact absurd rfl some
  | cons first rest ih =>
    cases rest with
    | nil => simp [joined, List.intercalate_cons_cons]
    | cons second rest =>
      rw [List.cons_append, List.cons_append, joined_cons_cons, joined_cons_cons,
        ← List.cons_append, ih (List.cons_ne_nil _ _), List.append_assoc, List.cons_append]

theorem lineCount_joined (some : lines ≠ []) (unbroken : ∀ line ∈ lines, .char '\n' ∉ line) :
    lineCount (joined lines) = lines.length := by
  induction lines with
  | nil => exact absurd rfl some
  | cons first rest ih =>
    obtain ⟨here, behind⟩ := List.forall_mem_cons.mp unbroken
    have none := List.count_eq_zero.mpr here
    cases rest with
    | nil => simp [joined, lineCount, none]
    | cons second rest =>
      have counted := ih (List.cons_ne_nil _ _) behind
      rw [lineCount] at counted
      rw [joined_cons_cons, lineCount, List.count_append, List.count_cons_self, none,
        List.length_cons, ← counted, Nat.zero_add]

/-- A text that waits for more is not empty. -/
theorem Waits.joined_ne_nil {count : Nat} (waits : Waits lines count) :
    joined (lines.take count) ≠ [] := by
  intro empty
  rw [Waits, empty] at waits
  cases waits

/-- One more line behind lines that wait. -/
theorem join_joined (waits : AllWait waiting) (line : List Text.Glyph) :
    join (joined waiting) line = joined (waiting ++ [line]) := by
  by_cases none : waiting = []
  · subst none
    simp [join, joined]
  · have whole := waits waiting.length (List.length_pos_iff.mpr none) (Nat.le_refl _)
    have nonempty := whole.joined_ne_nil
    rw [List.take_length] at nonempty
    rw [joined_concat none, join, if_neg (by simpa using nonempty)]

/-! ## Dividing lines -/

theorem AllWait.nil : AllWait [] :=
  fun _ positive bounded => absurd bounded (Nat.not_le_of_lt positive)

theorem AllWait.concat (waits : AllWait waiting)
    (asked : incomplete (Text.characters (joined (waiting ++ [line]))) = true) :
    AllWait (waiting ++ [line]) := by
  intro count positive bounded
  rw [List.length_append, List.length_singleton] at bounded
  rcases Nat.le_succ_iff.mp bounded with inside | last
  · rw [Waits, List.take_append_of_le_length inside]
    exact waits count positive inside
  · rw [Waits, last, List.take_of_length_le (by simp)]
    exact asked

theorem Divides.cons (unbroken : ∀ taken ∈ waiting ++ [line], .char '\n' ∉ taken)
    (waits : AllWait waiting)
    (answered : incomplete (Text.characters (joined (waiting ++ [line]))) = false)
    {complete unfinished : List (List Text.Glyph)} (divides : Divides rest complete unfinished) :
    Divides (waiting ++ line :: rest) (joined (waiting ++ [line]) :: complete) unfinished := by
  have taken : linesOf (joined (waiting ++ [line])) = waiting ++ [line] :=
    linesOf_joined (by simp) unbroken
  refine ⟨?_, ?_, ?_, divides.leftOver⟩
  · rw [List.flatMap_cons, taken, List.append_assoc, divides.inOrder, List.append_assoc,
      List.singleton_append]
  · exact List.forall_mem_cons.mpr ⟨answered, divides.finished⟩
  · refine List.forall_mem_cons.mpr ⟨?_, divides.noSooner⟩
    intro count positive bounded
    rw [taken, List.length_append, List.length_singleton] at bounded
    have inside := Nat.le_of_lt_succ bounded
    rw [taken, Waits, List.take_append_of_le_length inside]
    exact waits count positive inside

/-- Lines behind those that wait are divided into texts. -/
theorem texts_divides (waits : AllWait waiting)
    (unbroken : ∀ line ∈ waiting ++ lines, .char '\n' ∉ line) :
    ∃ complete unfinished, texts (joined waiting) lines = (complete, joined unfinished) ∧
      Divides (waiting ++ lines) complete unfinished := by
  induction lines generalizing waiting with
  | nil =>
    refine ⟨[], waiting, rfl, by simp, nofun, nofun, waits⟩
  | cons line rest ih =>
    have whole : waiting ++ line :: rest = (waiting ++ [line]) ++ rest := by simp
    simp only [texts, join_joined waits]
    cases asked : incomplete (Text.characters (joined (waiting ++ [line]))) with
    | true =>
      rw [whole] at unbroken ⊢
      exact ih (waits.concat asked) unbroken
    | false =>
      rw [whole] at unbroken
      have here : ∀ taken ∈ waiting ++ [line], .char '\n' ∉ taken :=
        fun taken member => unbroken taken (List.mem_append_left rest member)
      have behind : ∀ later ∈ [] ++ rest, .char '\n' ∉ later :=
        fun later member => unbroken later (List.mem_append_right _ member)
      obtain ⟨complete, unfinished, grouped, divides⟩ := ih AllWait.nil behind
      refine ⟨_ :: complete, unfinished, ?_, divides.cons here waits asked⟩
      rw [show joined [] = [] from rfl] at grouped
      simp [grouped]

/-! ## Asking for lines -/

/-- The prompts with which lines are asked for: what is pending is the text of the lines before. -/
def asking (lines : List (List Text.Glyph)) : List Event :=
  (List.range lines.length).map fun count => .prompt (joined (lines.take count))

/-- A prompt asks for the rest of a text exactly where there is a text that waits for it. -/
def Apt (pending : List Text.Glyph) : Prop :=
  prompt pending = "  ... " ↔ pending ≠ [] ∧ incomplete (Text.characters pending) = true

theorem prompt_of_ne_nil {pending : List Text.Glyph} (some : pending ≠ []) :
    prompt pending = "  ... " := by
  rw [prompt, if_neg (by simpa using some)]

theorem apt_nil : Apt [] :=
  ⟨fun continued => absurd continued (by decide), fun waits => absurd rfl waits.1⟩

theorem Waits.apt {count : Nat} (waits : Waits lines count) : Apt (joined (lines.take count)) :=
  ⟨fun _ => ⟨waits.joined_ne_nil, waits⟩, fun _ => prompt_of_ne_nil waits.joined_ne_nil⟩

theorem apt_of_asking (waits : ∀ count, 0 < count → count < lines.length → Waits lines count)
    {pending : List Text.Glyph} (asked : .prompt pending ∈ asking lines) : Apt pending := by
  obtain ⟨count, member, same⟩ := List.mem_map.mp asked
  cases same
  cases count with
  | zero => exact apt_nil
  | succ count => exact (waits _ (Nat.succ_pos _) (List.mem_range.mp member)).apt

/-- The prompts of a text are those with which its lines are asked for. -/
theorem transcript_asking (some : lines ≠ []) (unbroken : ∀ line ∈ lines, .char '\n' ∉ line)
    (waits : ∀ count, 0 < count → count < lines.length → Waits lines count) :
    transcript (asking lines) = prompts (joined lines) := by
  have counted := lineCount_joined some unbroken
  rw [lineCount] at counted
  -- Behind the first line, every prompt asks for the rest of a text.
  have continued : ∀ count ∈ List.range ((joined lines).count (.char '\n')),
      prompt (joined (lines.take (count + 1))) = prompt (joined lines) := by
    intro count member
    have inside := List.mem_range.mp member
    have nonempty : joined lines ≠ [] := by
      intro empty
      rw [empty] at inside
      cases inside
    rw [prompt_of_ne_nil nonempty, prompt_of_ne_nil]
    exact (waits (count + 1) (Nat.succ_pos _) (by omega)).joined_ne_nil
  have same := List.map_eq_replicate_iff.mpr continued
  rw [List.length_range] at same
  rw [transcript, asking, ← counted, List.range_succ_eq_map, prompts, ← same]
  simp only [List.map_cons, List.map_map, Function.comp_def, Event.written, String.join_cons,
    List.take_zero]
  rfl

theorem transcript_asking_linesOf
    (waits : ∀ count, 0 < count → count < (linesOf text).length → Waits (linesOf text) count)
    (unbroken : ∀ line ∈ linesOf text, .char '\n' ∉ line) :
    transcript (asking (linesOf text)) = prompts text := by
  have some : linesOf text ≠ [] := List.splitOn_ne_nil _ _
  rw [transcript_asking some unbroken waits, joined_linesOf]

theorem farewell_joined (waits : AllWait lines) (unbroken : ∀ line ∈ lines, .char '\n' ∉ line) :
    farewell (joined lines) = transcript (asking lines ++ [.prompt (joined lines)]) ++ "\n" := by
  rw [farewell, transcript_append]
  by_cases none : lines = []
  · subst none
    rfl
  · have whole := waits lines.length (List.length_pos_iff.mpr none) (Nat.le_refl _)
    have nonempty := whole.joined_ne_nil
    rw [List.take_length] at nonempty
    rw [if_neg (by simpa using nonempty),
      transcript_asking none unbroken fun count positive inside =>
        waits count positive (Nat.le_of_lt inside)]
    simp [transcript, Event.written]

/-! ## Handling texts -/

/-- A text that ends the session. -/
def Leaves (text : List Text.Glyph) : Prop :=
  String.ofList (Text.characters (Text.trim text)) ∈ ["exit", ":exit", ":quit"]

instance : DecidablePred Leaves :=
  fun _ => inferInstanceAs (Decidable (_ ∈ _))

/-- Texts up to and including the first one that ends the session. -/
def upToLeaving : List (List Text.Glyph) → List (List Text.Glyph)
  | [] => []
  | text :: rest => if Leaves text then [text] else text :: upToLeaving rest

/-- The texts that are handled: those that are not blank, until the session ends. -/
def handled (complete : List (List Text.Glyph)) : List (List Text.Glyph) :=
  (upToLeaving complete).filter fun text => !(Text.trim text).isEmpty

/-- What happens while texts are entered: their lines are asked for, and behind each text that is
not blank comes the answer to it. -/
inductive Dialogue : List (List Text.Glyph) → List String → List Event → Prop where
  | done : Dialogue [] [] []
  | blank {text : List Text.Glyph} {rest : List (List Text.Glyph)} {answers : List String}
      {events : List Event} (bare : Text.trim text = []) (later : Dialogue rest answers events) :
      Dialogue (text :: rest) answers (asking (linesOf text) ++ events)
  | answered {text : List Text.Glyph} {rest : List (List Text.Glyph)} {answer : String}
      {answers : List String} {events : List Event} (visible : Text.trim text ≠ [])
      (later : Dialogue rest answers events) :
      Dialogue (text :: rest) (answer :: answers)
        (asking (linesOf text) ++ .answer answer :: events)

theorem not_leaves_of_blank (bare : Text.trim text = []) : ¬Leaves text := by
  rw [Leaves, bare]
  decide

theorem ofText_eq_leave_iff : Request.ofText text = .leave ↔ Leaves text := by
  have words : Leaves text ↔
      Request.leaving.contains (String.ofList (Text.characters (Text.trim text))) = true :=
    List.contains_iff_mem.symm
  rw [words]
  fun_cases Request.ofText text with
  | case1 line source empty =>
    have blank : Text.characters (Text.trim text) = [] := List.isEmpty_iff.mp empty
    rw [blank]
    exact ⟨nofun, fun leaving => absurd leaving (by decide)⟩
  | case2 line source _ leaving => exact ⟨fun _ => leaving, fun _ => rfl⟩
  | case3 _ _ _ staying | case4 _ _ _ staying | case5 _ _ _ staying | case6 _ _ _ staying
  | case7 _ _ _ staying => exact ⟨nofun, fun leaving => absurd leaving staying⟩

/-- A session ends exactly with one of the words for that. -/
theorem handle_leaves_iff (interpreter : Interpreter) (text : List Text.Glyph) (machine : Machine) :
    (handle interpreter text machine).1.leaves = true ↔ Leaves text := by
  rw [← ofText_eq_leave_iff, handle]
  cases Request.ofText text with
  | leave => exact ⟨fun _ => rfl, fun _ => rfl⟩
  | nothing | help | tokens | tree | unknown | evaluate =>
    constructor
    · intro ends
      cases ends
    · intro same
      cases same

/-! ## Texts until the session ends -/

theorem upToLeaving_of_leaves (leaves : Leaves text) : upToLeaving (text :: rest) = [text] :=
  if_pos leaves

theorem upToLeaving_of_stays (stays : ¬Leaves text) :
    upToLeaving (text :: rest) = text :: upToLeaving rest :=
  if_neg stays

/-- What a session writes behind the texts it was given: nothing if one of them ended it. -/
def lastWords (complete : List (List Text.Glyph)) (unfinished : List Text.Glyph) : String :=
  if ∃ text ∈ complete, Leaves text then "" else farewell unfinished

theorem lastWords_of_leaves (leaves : Leaves text) (unfinished : List Text.Glyph) :
    lastWords (text :: rest) unfinished = "" :=
  if_pos ⟨text, List.mem_cons_self, leaves⟩

theorem lastWords_of_stays (stays : ¬Leaves text) (unfinished : List Text.Glyph) :
    lastWords (text :: rest) unfinished = lastWords rest unfinished := by
  simp [lastWords, stays]

/-- A text that is not blank is handled and kept in the history. -/
theorem accept_visible (interpreter : Interpreter) (history : History)
    (visible : Text.trim text ≠ []) (machine : Machine) :
    accept interpreter history text machine =
      (((handle interpreter text machine).1, history.add (entry text)),
        (handle interpreter text machine).2) := by
  rw [accept, if_neg (by simpa using visible)]
  rfl

theorem accept_bare (interpreter : Interpreter) (history : History) (bare : Text.trim text = [])
    (machine : Machine) :
    accept interpreter history text machine = ((⟨"", false⟩, history), machine) := by
  rw [accept, bare]
  rfl

/-- One text of a session: its answer is written behind its prompts, and unless it ends the session
the other texts follow. -/
theorem answerTexts_step {interpreter : Interpreter} {history history' : History} {reply : Reply}
    {machine machine' : Machine} (unfinished : List Text.Glyph)
    (accepted : accept interpreter history text machine = ((reply, history'), machine')) :
    answerTexts interpreter unfinished history (text :: rest) machine =
      if reply.leaves then ((prompts text ++ reply.output, history'), machine')
      else
        let later := answerTexts interpreter unfinished history' rest machine'
        ((prompts text ++ reply.output ++ later.1.1, later.1.2), later.2) := by
  obtain ⟨output, leaves⟩ := reply
  rw [answerTexts, Machine.bind_apply, accepted]
  cases leaves <;> rfl

/-- Texts are answered one after the other until one of them ends the session.  Only those that are
not blank are handled and kept in the history. -/
theorem answerTexts_dialogue (interpreter : Interpreter) (unfinished : List Text.Glyph)
    {complete : List (List Text.Glyph)}
    (asked : ∀ text ∈ complete, transcript (asking (linesOf text)) = prompts text)
    (history : History) (machine : Machine) :
    ∃ events replies final,
      (handled complete).mapM (handle interpreter) machine = (replies, final) ∧
      Dialogue (upToLeaving complete) (replies.map Reply.output) events ∧
      answerTexts interpreter unfinished history complete machine =
        ((transcript events ++ lastWords complete unfinished,
          (handled complete).foldl (fun history text => history.add (entry text)) history),
          final) := by
  induction complete generalizing history machine with
  | nil =>
    refine ⟨[], [], machine, rfl, .done, ?_⟩
    simp [answerTexts, lastWords, handled, upToLeaving, transcript]
    rfl
  | cons text rest ih =>
    obtain ⟨here, behind⟩ := List.forall_mem_cons.mp asked
    by_cases bare : Text.trim text = []
    · have stays := not_leaves_of_blank bare
      obtain ⟨events, replies, final, ran, dialogue, wrote⟩ := ih behind history machine
      have skipped : handled (text :: rest) = handled rest := by
        simp [handled, upToLeaving_of_stays stays, bare]
      refine ⟨asking (linesOf text) ++ events, replies, final, ?_, ?_, ?_⟩
      · rw [skipped, ran]
      · rw [upToLeaving_of_stays stays]
        exact .blank bare dialogue
      · rw [answerTexts_step unfinished (accept_bare interpreter history bare machine), wrote,
          skipped, lastWords_of_stays stays, transcript_append, here]
        simp [String.append_assoc]
    · have accepted := accept_visible interpreter history bare machine
      by_cases leaves : Leaves text
      · have last : handled (text :: rest) = [text] := by
          simp [handled, upToLeaving_of_leaves leaves, bare]
        have ends := (handle_leaves_iff interpreter text machine).mpr leaves
        refine ⟨asking (linesOf text) ++ [.answer (handle interpreter text machine).1.output],
          [(handle interpreter text machine).1], (handle interpreter text machine).2, ?_, ?_, ?_⟩
        · rw [last]
          rfl
        · rw [upToLeaving_of_leaves leaves]
          exact .answered bare .done
        · rw [answerTexts_step unfinished accepted, if_pos ends, last, lastWords_of_leaves leaves,
            transcript_append, here]
          simp [transcript, Event.written]
      · have taken : handled (text :: rest) = text :: handled rest := by
          simp [handled, upToLeaving_of_stays leaves, bare]
        have goesOn : ¬(handle interpreter text machine).1.leaves = true :=
          fun ends => leaves ((handle_leaves_iff interpreter text machine).mp ends)
        obtain ⟨events, replies, final, ran, dialogue, wrote⟩ :=
          ih behind (history.add (entry text)) (handle interpreter text machine).2
        refine ⟨asking (linesOf text) ++
            .answer (handle interpreter text machine).1.output :: events,
          (handle interpreter text machine).1 :: replies, final, ?_, ?_, ?_⟩
        · rw [taken, List.mapM_cons, Machine.bind_apply, Machine.bind_apply, ran]
          rfl
        · rw [upToLeaving_of_stays leaves]
          exact .answered bare dialogue
        · rw [answerTexts_step unfinished accepted, if_neg goesOn, wrote, taken,
            lastWords_of_stays leaves, transcript_append, transcript_cons, here]
          simp [Event.written, String.append_assoc]

/-! ## A whole session -/

/-- What is asked behind the texts of a session: unless one of them ended it, the lines that are
left over and one more, which never comes. -/
def lastAsked (complete unfinished : List (List Text.Glyph)) : List Event :=
  if ∃ text ∈ complete, Leaves text then [] else asking unfinished ++ [.prompt (joined unfinished)]

theorem upToLeaving_isPrefix (complete : List (List Text.Glyph)) :
    upToLeaving complete <+: complete := by
  induction complete with
  | nil => exact List.prefix_rfl
  | cons text rest ih =>
    by_cases leaves : Leaves text
    · rw [upToLeaving_of_leaves leaves]
      exact List.prefix_append [text] rest
    · rw [upToLeaving_of_stays leaves]
      exact (List.prefix_cons_inj text).mpr ih

theorem Dialogue.of_prompt {complete : List (List Text.Glyph)} {answers : List String}
    {events : List Event} (dialogue : Dialogue complete answers events)
    {pending : List Text.Glyph} (asked : .prompt pending ∈ events) :
    ∃ text ∈ complete, .prompt pending ∈ asking (linesOf text) := by
  induction dialogue with
  | done => cases asked
  | @blank text _ _ _ _ _ ih =>
    rcases List.mem_append.mp asked with here | behind
    · exact ⟨text, List.mem_cons_self, here⟩
    · obtain ⟨later, member, found⟩ := ih behind
      exact ⟨later, List.mem_cons_of_mem _ member, found⟩
  | @answered text _ _ _ _ _ _ ih =>
    rcases List.mem_append.mp asked with here | behind
    · exact ⟨text, List.mem_cons_self, here⟩
    · obtain ⟨later, member, found⟩ := ih ((List.mem_cons.mp behind).resolve_left nofun)
      exact ⟨later, List.mem_cons_of_mem _ member, found⟩

theorem apt_of_lastAsked {complete unfinished : List (List Text.Glyph)}
    (waits : AllWait unfinished) {pending : List Text.Glyph}
    (asked : .prompt pending ∈ lastAsked complete unfinished) : Apt pending := by
  rw [lastAsked] at asked
  split at asked
  · cases asked
  · rcases List.mem_append.mp asked with before | last
    · exact apt_of_asking (fun count positive inside =>
        waits count positive (Nat.le_of_lt inside)) before
    · cases List.mem_singleton.mp last
      by_cases none : unfinished = []
      · subst none
        exact apt_nil
      · have whole := waits _ (List.length_pos_iff.mpr none) (Nat.le_refl _)
        have apt := whole.apt
        rwa [List.take_length] at apt

theorem lastWords_joined {complete unfinished : List (List Text.Glyph)}
    (waits : AllWait unfinished) (unbroken : ∀ line ∈ unfinished, .char '\n' ∉ line) :
    lastWords complete (joined unfinished) =
      transcript (lastAsked complete unfinished) ++
        if ∃ text ∈ complete, Leaves text then "" else "\n" := by
  rw [lastWords, lastAsked]
  split
  · rfl
  · exact farewell_joined waits unbroken

/-- No line of a session is lost, repeated or moved.  The lines are divided into texts, and the ones
that are read come first among them; the prompt for a line asks for the rest of a text exactly where
one waits for it; and the texts that are handled, and kept in the history, are those that are not
blank up to the first one that ends the session. -/
theorem session_keeps_lines (interpreter : Interpreter) (history : History)
    (unbroken : ∀ line ∈ lines, .char '\n' ∉ line) (machine : Machine) :
    ∃ complete unfinished events replies final,
      texts [] lines = (complete, joined unfinished) ∧
      Divides lines complete unfinished ∧
      (upToLeaving complete).flatMap linesOf <+: lines ∧
      (handled complete).mapM (handle interpreter) machine = (replies, final) ∧
      Dialogue (upToLeaving complete) (replies.map Reply.output) events ∧
      (∀ pending, .prompt pending ∈ events ++ lastAsked complete unfinished →
        (prompt pending = "  ... " ↔
          pending ≠ [] ∧ incomplete (Text.characters pending) = true)) ∧
      session interpreter history lines machine =
        ((banner ++ "\n" ++ transcript (events ++ lastAsked complete unfinished) ++
            (if ∃ text ∈ complete, Leaves text then "" else "\n"),
          (handled complete).foldl (fun history text => history.add (entry text)) history),
          final) := by
  obtain ⟨complete, unfinished, grouped, divides⟩ := texts_divides AllWait.nil unbroken
  rw [List.nil_append] at divides
  have whole : ∀ line ∈ complete.flatMap linesOf ++ unfinished, .char '\n' ∉ line := by
    rwa [divides.inOrder]
  have asked : ∀ text ∈ complete, transcript (asking (linesOf text)) = prompts text := by
    intro text member
    refine transcript_asking_linesOf (divides.noSooner text member) fun line inside => ?_
    exact whole line (List.mem_append_left _ (List.mem_flatMap.mpr ⟨text, member, inside⟩))
  obtain ⟨events, replies, final, ran, dialogue, wrote⟩ :=
    answerTexts_dialogue interpreter (joined unfinished) asked history machine
  refine ⟨complete, unfinished, events, replies, final, grouped, divides, ?_, ran, dialogue, ?_, ?_⟩
  · obtain ⟨skipped, split⟩ := upToLeaving_isPrefix complete
    refine ⟨skipped.flatMap linesOf ++ unfinished, ?_⟩
    rw [← List.append_assoc, ← List.flatMap_append, split, divides.inOrder]
  · intro pending member
    rcases List.mem_append.mp member with before | last
    · obtain ⟨text, read, found⟩ := dialogue.of_prompt before
      have finished := (upToLeaving_isPrefix complete).subset read
      exact apt_of_asking (divides.noSooner text finished) found
    · exact apt_of_lastAsked divides.leftOver last
  · have left : ∀ line ∈ unfinished, .char '\n' ∉ line :=
      fun line member => whole line (List.mem_append_right _ member)
    rw [show joined [] = [] from rfl] at grouped
    have shown : transcript events ++ lastWords complete (joined unfinished) =
        transcript (events ++ lastAsked complete unfinished) ++
          if ∃ text ∈ complete, Leaves text then "" else "\n" := by
      rw [lastWords_joined divides.leftOver left, transcript_append, String.append_assoc]
    rw [shown] at wrote
    simp only [session, grouped, Machine.bind_apply, wrote, String.append_assoc]
    rfl

/-- A form on two lines, a blank line, the word that ends the session and a form that is not even
read: two texts are handled. -/
theorem session_keeps_lines_until_exit :
    let text : String → List Text.Glyph := fun line => Text.ofCharacters line.toList
    let lines := ["(+ 1", "2)", "", " exit ", "(car"].map text
    (∀ line ∈ lines, .char '\n' ∉ line) ∧
      ∃ complete unfinished events replies final,
        handled complete = ["(+ 1\n2)", " exit "].map text ∧
        Divides lines complete unfinished ∧
        (handled complete).mapM (handle {}) Machine.empty = (replies, final) ∧
        Dialogue (upToLeaving complete) (replies.map Reply.output) events ∧
        session {} [] lines Machine.empty =
          ((banner ++ "\n" ++ transcript (events ++ lastAsked complete unfinished) ++
              (if ∃ text ∈ complete, Leaves text then "" else "\n"),
            (handled complete).foldl (fun history text => History.add history (entry text)) []),
            final) := by
  intro text lines
  have unbroken : ∀ line ∈ lines, .char '\n' ∉ line := by decide
  refine ⟨unbroken, ?_⟩
  obtain ⟨complete, unfinished, events, replies, final, grouped, divides, -, ran, dialogue, -,
    wrote⟩ := session_keeps_lines {} [] unbroken Machine.empty
  have handles : handled (texts [] lines).1 = ["(+ 1\n2)", " exit "].map text := by decide
  rw [grouped] at handles
  exact ⟨complete, unfinished, events, replies, final, handles, divides, ran, dialogue, wrote⟩

/-! ## Line by line -/

/-- The prompts that were shown while the lines of a text came in that waits for more. -/
def shownBefore (pending : List Text.Glyph) : String :=
  if pending.isEmpty then "" else prompts pending

/-- A line is asked for once, by what waits in front of it. -/
theorem prompts_join (pending : List Text.Glyph) {line : List Text.Glyph}
    (unbroken : .char '\n' ∉ line) :
    prompts (join pending line) = shownBefore pending ++ prompt pending := by
  have none := List.count_eq_zero.mpr unbroken
  cases pending with
  | nil => simp [join, prompts, shownBefore, none]
  | cons first others =>
    have longer : join (first :: others) line = (first :: others) ++ .char '\n' :: line := rfl
    have counted : (join (first :: others) line).count (.char '\n') =
        (first :: others).count (.char '\n') + 1 := by
      rw [longer, List.count_append, List.count_cons_self, none]
    have same : prompt (join (first :: others) line) = prompt (first :: others) := rfl
    have before : shownBefore (first :: others) = prompts (first :: others) := rfl
    rw [before, prompts, prompts, counted, same, List.replicate_succ', String.append_assoc]
    simp

theorem shownBefore_of_incomplete {text : List Text.Glyph}
    (asked : incomplete (Text.characters text) = true) : shownBefore text = prompts text := by
  cases text with
  | nil => cases asked
  | cons first rest => rfl

/-- One line of a conversation: what it is answered stands behind its prompt, and unless it ends the
session the other lines follow. -/
theorem converse_step {interpreter : Interpreter} {history history' : History} {reply : Reply}
    {pending line waiting : List Text.Glyph} {machine machine' : Machine}
    (taken : takeLine interpreter history pending line machine =
      ((reply, history', waiting), machine')) (rest : List (List Text.Glyph)) :
    converse interpreter history pending (line :: rest) machine =
      if reply.leaves then ((prompt pending ++ reply.output, history'), machine')
      else
        let later := converse interpreter history' waiting rest machine'
        ((prompt pending ++ reply.output ++ later.1.1, later.1.2), later.2) := by
  obtain ⟨output, leaves⟩ := reply
  rw [converse, Machine.bind_apply, taken]
  cases leaves <;> rfl

/-- What is taken line by line is answered text by text: the texts that the lines make up behind
one that waits are answered as when they are complete, only that its own lines were asked for
before. -/
theorem answerTexts_texts (interpreter : Interpreter) {lines : List (List Text.Glyph)}
    (unbroken : ∀ line ∈ lines, .char '\n' ∉ line) (pending : List Text.Glyph) (history : History)
    (machine : Machine) :
    let outcome := converse interpreter history pending lines machine
    answerTexts interpreter (texts pending lines).2 history (texts pending lines).1 machine =
      ((shownBefore pending ++ outcome.1.1, outcome.1.2), outcome.2) := by
  induction lines generalizing pending history machine with
  | nil =>
    simp only [texts, answerTexts, farewell, converse, shownBefore, String.append_assoc]
    rfl
  | cons line rest ih =>
    obtain ⟨here, behind⟩ := List.forall_mem_cons.mp unbroken
    cases asked : incomplete (Text.characters (join pending line)) with
    | true =>
      have taken : takeLine interpreter history pending line machine =
          ((⟨"", false⟩, history, join pending line), machine) := by
        simp only [takeLine, asked, if_true]
        rfl
      have later := ih behind (join pending line) history machine
      have grouped : texts pending (line :: rest) = texts (join pending line) rest := by
        simp only [texts, asked, if_true]
      simp only [grouped, later, converse_step taken, Bool.false_eq_true, if_false,
        shownBefore_of_incomplete asked, prompts_join pending here, String.append_empty,
        String.append_assoc]
    | false =>
      rcases answered : accept interpreter history (join pending line) machine with
        ⟨⟨reply, history'⟩, machine'⟩
      have taken : takeLine interpreter history pending line machine =
          ((reply, history', []), machine') := by
        simp only [takeLine, asked, Bool.false_eq_true, if_false, Machine.bind_apply, answered]
        rfl
      have later := ih behind [] history' machine'
      have grouped : texts pending (line :: rest) =
          (join pending line :: (texts [] rest).1, (texts [] rest).2) := by
        simp only [texts, asked, Bool.false_eq_true, if_false]
      simp only [grouped, answerTexts_step _ answered, converse_step taken, later]
      cases reply.leaves with
      | true => simp only [if_true, prompts_join pending here, String.append_assoc]
      | false =>
        have nothing : shownBefore [] = "" := rfl
        simp only [Bool.false_eq_true, if_false, prompts_join pending here, nothing,
          String.empty_append, String.append_assoc]

/-- A session is the conversation that takes its lines one by one. -/
theorem session_eq_converse (interpreter : Interpreter) (history : History)
    {lines : List (List Text.Glyph)} (unbroken : ∀ line ∈ lines, .char '\n' ∉ line)
    (machine : Machine) :
    session interpreter history lines machine =
      let outcome := converse interpreter history [] lines machine
      ((banner ++ "\n" ++ outcome.1.1, outcome.1.2), outcome.2) := by
  have answered := answerTexts_texts interpreter unbroken [] history machine
  have nothing : shownBefore [] = "" := rfl
  simp only [nothing, String.empty_append] at answered
  simp only [session, Machine.bind_apply, answered]
  rfl

end MiniLisp.Repl
