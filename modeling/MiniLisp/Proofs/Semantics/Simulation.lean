import MiniLisp.Proofs.Semantics.World

/-!
# The machine follows the rules

A run of the machine is compared with the computation of the same form, step by step and with the
same room: both come to a value with the same meaning, to the same fault, or to the end of the room.
The comparison is a relation between computations that is closed under sequencing, so each part of
the evaluator is compared on its own.
-/

namespace MiniLisp.Semantics

/-- A machine realizes a world: known scopes stand for their chains, and the engine admits exactly
`room` more evaluations inside one another. -/
structure Realizes (setting : Setting) (world : World) (room supply : Nat) (machine : Machine) :
    Prop where
  scopes : ∀ scope chain, world scope = some chain →
    ScopeStands setting world machine.scopes scope chain
  closures : machine.closures = setting.made + supply
  engine : ∃ depth log, machine.engines[setting.engine]? = some ⟨setting.limit, depth, log⟩ ∧
    depth + room = setting.limit

/-- Later scopes contain the earlier ones unchanged, and nothing new is known of these. -/
structure Later (world : World) (scopes : Scopes) (world' : World) (scopes' : Scopes) : Prop where
  kept : ∀ scope, scope < scopes.size → scopes'[scope]? = scopes[scope]?
  known : ∀ scope, scope < scopes.size → world' scope = world scope

namespace Later

variable {world middle last : World} {scopes scopes' scopes'' : Scopes}

theorem refl (world : World) (scopes : Scopes) : Later world scopes world scopes :=
  ⟨fun _ _ => rfl, fun _ _ => rfl⟩

theorem size_le (later : Later world scopes middle scopes') : scopes.size ≤ scopes'.size := by
  by_contra shorter
  have inside : scopes'.size < scopes.size := Nat.lt_of_not_le shorter
  have kept := later.kept scopes'.size inside
  rw [Array.getElem?_eq_none (Nat.le_refl _), Array.getElem?_eq_getElem inside] at kept
  cases kept

theorem trans (first : Later world scopes middle scopes')
    (second : Later middle scopes' last scopes'') : Later world scopes last scopes'' := by
  constructor
  · intro scope inside
    have inside' := Nat.lt_of_lt_of_le inside first.size_le
    rw [second.kept scope inside', first.kept scope inside]
  · intro scope inside
    have inside' := Nat.lt_of_lt_of_le inside first.size_le
    rw [second.known scope inside', first.known scope inside]

theorem grows {setting : Setting} {room supply : Nat} {machine : Machine}
    (realizes : Realizes setting world room supply machine)
    (later : Later world machine.scopes middle scopes') : world.Grows middle := by
  intro scope chain known
  rw [later.known scope (realizes.scopes scope chain known).lt_size]
  exact known

end Later

/-- What a run came to and what the computation came to are the same thing. -/
inductive Mirrors {α β : Type} (setting : Setting) (room : Nat) (related : World → α → β → Prop)
    (world : World) (scopes : Scopes) : Except Stop α × Machine → Option (Outcome β) → Prop where
  | value {value : α} {meaning : β} {world' : World} {supply : Nat} {final : Machine}
      (realizes : Realizes setting world' room supply final)
      (later : Later world scopes world' final.scopes) (holds : related world' value meaning) :
      Mirrors setting room related world scopes (.ok value, final) (some (.ok (meaning, supply)))
  | fault (fault : Fault) (final : Machine) :
      Mirrors setting room related world scopes (.error (.fault fault), final) (some (.error fault))
  | tooDeep (final : Machine) :
      Mirrors setting room related world scopes
        (.error (.fault (.tooDeep setting.limit)), final) none

/-- A run of the machine follows a computation: from every machine that realizes the world,
both come to the same. -/
def Follows {α β : Type} (setting : Setting) (room : Nat) (related : World → α → β → Prop)
    (world : World) (action : Run α) (computation : Computation β) : Prop :=
  ∀ machine supply, Realizes setting world room supply machine →
    Mirrors setting room related world machine.scopes (action machine) (computation supply)

variable {α β γ δ : Type} {setting : Setting} {room : Nat} {world : World}
variable {related : World → α → β → Prop} {related' : World → γ → δ → Prop}

theorem Mirrors.of_later {world' : World} {scopes scopes' : Scopes}
    {outcome : Except Stop α × Machine} {denoted : Option (Outcome β)}
    (later : Later world scopes world' scopes')
    (mirrors : Mirrors setting room related world' scopes' outcome denoted) :
    Mirrors setting room related world scopes outcome denoted := by
  cases mirrors with
  | value realizes later' holds => exact .value realizes (later.trans later') holds
  | fault fault final => exact .fault fault final
  | tooDeep final => exact .tooDeep final

/-! ## Sequencing -/

namespace Follows

theorem pure {value : α} {meaning : β} (holds : related world value meaning) :
    Follows setting room related world (pure value) (pure meaning) :=
  fun _ _ realizes => .value realizes (.refl _ _) holds

theorem fail (fault : Fault) :
    Follows setting room related world (Run.fail fault) (Computation.fail fault) :=
  fun machine _ _ => .fault fault machine

theorem bind {action : Run α} {computation : Computation β} {next : α → Run γ}
    {next' : β → Computation δ} (first : Follows setting room related world action computation)
    (continued : ∀ world' value meaning, world.Grows world' → related world' value meaning →
      Follows setting room related' world' (next value) (next' meaning)) :
    Follows setting room related' world (action >>= next) (computation >>= next') := by
  intro machine supply realizes
  rw [Run.bind_apply, Computation.bind_apply]
  match action machine, computation supply, first machine supply realizes with
  | _, _, .value realizes' later holds =>
    exact (continued _ _ _ (later.grows realizes) holds _ _ realizes').of_later later
  | _, _, .fault fault final => exact .fault fault final
  | _, _, .tooDeep final => exact .tooDeep final

/-- Where no room is left, nothing is evaluated. -/
theorem nested_zero {action : Run α} :
    Follows setting 0 related world (Run.nested setting.engine action) Computation.exhausted := by
  intro machine supply realizes
  obtain ⟨depth, log, present, full⟩ := realizes.engine
  have found : machine.engine setting.engine = ⟨setting.limit, depth, log⟩ := by
    simp [Machine.engine, Array.getD_eq_getD_getElem?, present]
  have reached : ¬depth < setting.limit := by omega
  simp only [Run.nested, found, if_neg reached]
  exact .tooDeep machine

/-- One level deeper there is room for one evaluation less, and the room is there again
afterwards. -/
theorem nested_succ {action : Run α} {computation : Computation β}
    (inside : Follows setting room related world action computation) :
    Follows setting (room + 1) related world (Run.nested setting.engine action) computation := by
  intro machine supply realizes
  obtain ⟨depth, log, present, full⟩ := realizes.engine
  have found : machine.engine setting.engine = ⟨setting.limit, depth, log⟩ := by
    simp [Machine.engine, Array.getD_eq_getD_getElem?, present]
  have admitted : depth < setting.limit := by omega
  have entered : Realizes setting world room supply (machine.enter setting.engine) := by
    refine ⟨realizes.scopes, realizes.closures, depth + 1, log, ?_, by omega⟩
    simp [Machine.enter, Array.getElem?_modify, present]
  simp only [Run.nested, found, if_pos admitted]
  match action (machine.enter setting.engine), computation supply, inside _ _ entered with
  | _, _, .value realizes' later holds =>
    obtain ⟨depth', log', present', full'⟩ := realizes'.engine
    refine .value ⟨realizes'.scopes, realizes'.closures, depth' - 1, log', ?_, by omega⟩ later holds
    simp [Machine.leave, Array.getElem?_modify, present']
  | _, _, .fault fault final => exact .fault fault _
  | _, _, .tooDeep final => exact .tooDeep _

end Follows

/-! ## Steps of the machine -/

/-- Recording an event changes nothing that a world speaks about. -/
theorem Realizes.record {supply : Nat} {machine : Machine}
    (realizes : Realizes setting world room supply machine) (event : Machine → TraceEvent) :
    ∃ final, Run.record setting.engine event machine = (.ok (), final) ∧
      final.scopes = machine.scopes ∧ Realizes setting world room supply final := by
  simp only [Run.record, Run.modify_apply]
  cases (machine.engine setting.engine).log with
  | none => exact ⟨machine, rfl, rfl, realizes⟩
  | some log => exact ⟨_, rfl, rfl, realizes.scopes, realizes.closures, realizes.engine⟩

theorem Follows.record_bind {action : Run α} {computation : Computation β}
    (event : Machine → TraceEvent) (after : Follows setting room related world action computation) :
    Follows setting room related world
      (do
        Run.record setting.engine event
        action) computation := by
  intro machine supply realizes
  obtain ⟨final, recorded, scopes, realizes'⟩ := realizes.record event
  rw [Run.bind_apply_of_ok recorded, ← scopes]
  exact after final supply realizes'

theorem Follows.bind_record {action : Run α} {computation : Computation β}
    (event : α → Machine → TraceEvent)
    (before : Follows setting room related world action computation) :
    Follows setting room related world
      (do
        let value ← action
        Run.record setting.engine (event value)
        return value) computation := by
  rw [← bind_pure computation]
  exact before.bind fun world' value meaning _ holds => record_bind _ (.pure holds)

/-- A scope whose bindings are final may be added to the world. -/
theorem Realizes.extend {supply : Nat} {machine : Machine} {scopes : Scopes} {fresh : ScopeId}
    {found : Scope} {frame : Frame} {outer : Chain}
    (realizes : Realizes setting world room supply machine) (unknown : world fresh = none)
    (kept : ∀ scope chain, world scope = some chain → scopes[scope]? = machine.scopes[scope]?)
    (present : scopes[fresh]? = some found)
    (frameStands : FrameStands setting world found.bindings frame)
    (parentStands : ParentStands world fresh found.parent outer) :
    Realizes setting (Function.update world fresh (some (frame :: outer))) room supply
      { machine with scopes := scopes } := by
  have grows : world.Grows (Function.update world fresh (some (frame :: outer))) := by
    intro scope chain known
    rw [Function.update_of_ne]
    · exact known
    · rintro rfl
      rw [unknown] at known
      cases known
  refine ⟨?_, realizes.closures, realizes.engine⟩
  intro scope chain known
  by_cases same : scope = fresh
  · subst same
    rw [Function.update_self] at known
    cases known
    exact ⟨found, frame, outer, present, rfl, frameStands.mono grows, parentStands.mono grows⟩
  · rw [Function.update_of_ne same] at known
    exact (realizes.scopes scope chain known).mono grows (kept scope chain known)

theorem Realizes.unknown_size {supply : Nat} {machine : Machine}
    (realizes : Realizes setting world room supply machine) : world machine.scopes.size = none := by
  rw [Option.eq_none_iff_forall_ne_some]
  intro chain known
  exact Nat.lt_irrefl _ (realizes.scopes _ chain known).lt_size

theorem getElem?_push_of_lt {scopes : Scopes} {scope : ScopeId} (inside : scope < scopes.size)
    (added : Scope) : (scopes.push added)[scope]? = scopes[scope]? := by
  rw [Array.getElem?_push, if_neg (Nat.ne_of_lt inside)]

/-- What happens in a new scope below a known one happens in a world that knows the new scope. -/
theorem Follows.newScope_bind {name : String} {bindings : Bindings} {frame : Frame}
    {scope : ScopeId} {chain : Chain} {next : ScopeId → Run α} {computation : Computation β}
    (known : world scope = some chain) (frameStands : FrameStands setting world bindings frame)
    (after : ∀ world' fresh, world' fresh = some (frame :: chain) →
      Follows setting room related world' (next fresh) computation) :
    Follows setting room related world (Run.newScope name (some scope) bindings >>= next)
      computation := by
  intro machine supply realizes
  have created : Run.newScope name (some scope) bindings machine =
      (.ok machine.scopes.size,
        { machine with scopes := machine.scopes.push ⟨name, some scope, bindings⟩ }) := rfl
  have older := (realizes.scopes scope chain known).lt_size
  have present : (machine.scopes.push ⟨name, some scope, bindings⟩)[machine.scopes.size]? =
      some ⟨name, some scope, bindings⟩ := Array.getElem?_push_size
  have extended := realizes.extend realizes.unknown_size
    (fun other _ known' => getElem?_push_of_lt (realizes.scopes other _ known').lt_size _)
    present frameStands ⟨older, known⟩
  rw [Run.bind_apply_of_ok created]
  refine (after _ _ (Function.update_self ..) _ _ extended).of_later ⟨?_, ?_⟩
  · intro other inside
    exact getElem?_push_of_lt inside _
  · intro other inside
    exact Function.update_of_ne (Nat.ne_of_lt inside) ..

end MiniLisp.Semantics
