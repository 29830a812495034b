import StoneBoard.Proofs.Links
import StoneBoard.Proofs.Renumbering

/-!
# Code of one definition with different numbers
-/

namespace StoneBoard

open Compilation List

variable {locals : Bindings} {defn : Definition} {lines : List Line} {lead : Counters}
  {routine : Routine} {offset : Nat} {span : Span}

/-! ## Variables under other names -/

def Bindings.renamed (names : String → String) (locals : Bindings) : Bindings :=
  locals.map fun entry => (names entry.1, entry.2)

namespace Bindings

variable {names : String → String} {locals : Bindings}

theorem get?_renamed (injective : Function.Injective names) (locals : Bindings) (name : String) :
    Table.get? (renamed names locals) (names name) = Table.get? locals name := by
  induction locals with
  | nil => rfl
  | cons entry rest ih =>
    obtain ⟨other, value⟩ := entry
    change Table.get? ((names other, value) :: renamed names rest) _ = _
    simp only [Table.get?_cons, ih, injective.eq_iff]

theorem erase_renamed (injective : Function.Injective names) (locals : Bindings) (name : String) :
    Table.erase (renamed names locals) (names name) = renamed names (Table.erase locals name) := by
  unfold Table.erase renamed
  rw [filter_map]
  congr 2
  funext entry
  simp [bne, injective.eq_iff]

theorem insert_renamed (injective : Function.Injective names) (locals : Bindings) (name : String)
    (value : Value) : Table.insert (renamed names locals) (names name) value =
      renamed names (Table.insert locals name value) := by
  rw [Table.insert, Table.insert, erase_renamed injective]
  rfl

theorem renamed_of_forall (same : ∀ entry ∈ locals, names entry.1 = entry.1) :
    renamed names locals = locals := by
  rw [renamed, map_congr_left fun entry mem => by rw [same entry mem], map_id']

end Bindings

theorem Bindings.mem_insertAll {entries : List (String × Value)}
    {entry : String × Value} (mem : entry ∈ Table.insertAll locals entries) :
    entry ∈ locals ∨ entry ∈ entries := by
  induction entries generalizing locals with
  | nil => exact .inl mem
  | cons first rest ih =>
    rcases ih mem with inserted | later
    · rcases List.mem_cons.mp inserted with rfl | kept
      · exact .inr mem_cons_self
      · exact .inl (mem_of_mem_filter kept)
    · exact .inr (mem_cons_of_mem _ later)

theorem Compilation.Counters.visible_renamed (lead : Counters) (locals : Bindings) :
    (locals.renamed lead.rename).filter (fun entry => entry.1.toList.head? != some '_') =
      locals.filter fun entry => entry.1.toList.head? != some '_' := by
  induction locals with
  | nil => rfl
  | cons entry rest ih =>
    rw [Bindings.renamed, map_cons, filter_cons, filter_cons, ← Bindings.renamed, ih]
    by_cases hidden : ∃ own : Counters, own.hiddenName = entry.1
    · obtain ⟨own, isHidden⟩ := hidden
      simp [← isHidden, hiddenName_toList]
    · rw [lead.rename_of_ne (not_exists.mp hidden)]

/-! ## Calls under way -/

namespace Routine

structure Twins (definition : Definition) (lines : List Line) (lead otherLead : Counters)
    (routine other : Routine) : Prop where
  first : routine.IsCodeOf definition lines lead
  second : other.IsCodeOf definition lines otherLead
  labels : ∀ label ∈ jumpTargets lines, ∃ (offset : Nat) (span : Span),
    lines[offset]? = some (.label label, span)
  parameters : ∀ parameter ∈ definition.parameters, IsIdentifier parameter

theorem IsCodeOf.getElem? (isCode : routine.IsCodeOf defn lines lead) (offset : Nat) :
    routine.code[offset]? =
      lines[offset]?.map fun line => (line.1.renamed (lead.label + ·) lead.rename, line.2) := by
  rw [← Array.getElem?_toList, isCode.code, Counters.renumber, getElem?_map]

theorem IsCodeOf.spanAt? (isCode : routine.IsCodeOf defn lines lead) (offset : Nat) :
    routine.spanAt? offset = lines[offset]?.map Prod.snd := by
  rw [Routine.spanAt?, isCode.getElem?, Option.map_map]
  rfl

end Routine

variable {home : CompiledModule} {others : Table Routine}

/-- Calls of two programs that differ in the numbers of their code: calls of other modules are the
same, and calls of their own routines are at the same place of the code of one definition. -/
inductive Frame.Twins (home : CompiledModule) (others : Table Routine) : Frame → Frame → Prop
  | same (frame : Frame) : Twins home others frame frame
  | own {definition : Definition} {lines : List Line} {lead otherLead : Counters}
      {routine other : Routine} (twins : routine.Twins definition lines lead otherLead other)
      (offset : Nat) (locals : Bindings) (base : Nat) :
      Twins home others ⟨home, routine, offset, locals.renamed lead.rename, base⟩
        ⟨{ home with routines := others }, other, offset, locals.renamed otherLead.rename, base⟩

def twinning (home : CompiledModule) (others : Table Routine) : Pairing where
  Frames := Frame.Twins home others
  Scenes scene other := scene = other
  span? := by
    rintro _ _ (frame | ⟨twins, offset, locals, base⟩)
    · rfl
    · rw [Frame.span?, Frame.span?, twins.first.spanAt?, twins.second.spanAt?]
  traceLine := by
    rintro _ _ (frame | ⟨twins, offset, locals, base⟩)
    · rfl
    · simp only [Frame.traceLine, Frame.span?, twins.first.spanAt?, twins.second.spanAt?,
        twins.first.kind, twins.second.kind, twins.first.name, twins.second.name]
      rfl
  traceVariables := by
    rintro _ _ (frame | ⟨twins, offset, locals, base⟩)
    · rfl
    · simp only [Frame.traceVariables, Frame.visibleVariables, Counters.visible_renamed]
  qualifier := by rintro _ _ (_ | _) <;> rfl
  file := by rintro _ _ (_ | _) <;> rfl
  name := by
    rintro _ _ (frame | ⟨twins, offset, locals, base⟩)
    · rfl
    · exact twins.first.name.trans twins.second.name.symm
  base := by rintro _ _ (_ | _) <;> rfl
  builtin := Builtin.agrees_of_eq

/-- Two programs have code of the same definitions under the same names. -/
def SameDefinitions (routines others : Table Routine) : Prop :=
  ∀ name, Option.Rel (fun routine other => ∃ definition lines lead otherLead,
      Routine.Twins definition lines lead otherLead routine other)
    (Table.get? routines name) (Table.get? others name)

theorem SameDefinitions.links (same : SameDefinitions home.routines others) (name : String) :
    Option.Rel (twinning home others).Links (home.exported? name)
      (CompiledModule.exported? { home with routines := others } name) := by
  have own := same name
  rw [CompiledModule.exported?, CompiledModule.exported?]
  dsimp only
  generalize home.routines.get? name = routine, others.get? name = other at own
  cases own with
  | none =>
    cases Table.get? home.links name with
    | none => exact .none
    | some link => exact .some ⟨rfl, fun _ _ => .same _⟩
  | @some routine other both =>
    obtain ⟨defn, lines, lead, otherLead, twins⟩ := both
    refine .some ⟨twins.first.parameters.trans twins.second.parameters.symm,
      fun args base => ?_⟩
    -- parameters are not hidden, so that they have their own names in both
    have kept (counters : Counters) : Bindings.renamed counters.rename
        (Table.insertAll [] (routine.parameters.zip args)) =
          Table.insertAll [] (routine.parameters.zip args) := by
      refine Bindings.renamed_of_forall fun entry mem => ?_
      have isParameter := (of_mem_zip ((Bindings.mem_insertAll mem).resolve_left not_mem_nil)).1
      rw [twins.first.parameters] at isParameter
      exact counters.rename_of_isIdentifier (twins.parameters _ isParameter)
    have called : (twinning home others).Frames _ _ :=
      .own twins 0 (Table.insertAll [] (routine.parameters.zip args)) base
    rwa [kept, kept] at called

theorem Routine.IsCodeOf.target? (isCode : routine.IsCodeOf defn lines lead) {label : Nat}
    (found : lines[offset]? = some (.label label, span)) :
    routine.target? (lead.label + label) = some (offset + 1) := by
  apply isCode.placed offset _ span
  rw [isCode.getElem?, found]
  rfl

namespace Machine

variable {first second : Machine} {limit : Nat}

/-- An instruction of the code of one definition does the same in both programs. -/
theorem alike_own (same : SameDefinitions home.routines others) {otherLead : Counters}
    {other : Routine} (twins : routine.Twins defn lines lead otherLead other) {base : Nat}
    (isFirst : first.frame = ⟨home, routine, offset, locals.renamed lead.rename, base⟩)
    (isSecond : second.frame = ⟨{ home with routines := others }, other, offset,
      locals.renamed otherLead.rename, base⟩)
    (scenes : first.scene = second.scene) {instr : Instruction}
    (mem : (instr, span) ∈ lines)
    (isSet : ∀ name, instr = .pushVariable name → Table.get? locals name ≠ none) :
    (twinning home others).Alike first second instr (lead.label + ·) (otherLead.label + ·)
      lead.rename otherLead.rename where
  reads name isPush := by
    rw [isFirst, isSecond]
    have value := Bindings.get?_renamed lead.rename_injective locals name
    refine ⟨?_, .inr ?_⟩
    · exact value.trans (Bindings.get?_renamed otherLead.rename_injective locals name).symm
    · exact value.trans_ne (isSet name isPush)
  sets name value _ := by
    rw [isFirst, isSecond, Frame.setVariable, Frame.setVariable,
      Bindings.insert_renamed lead.rename_injective,
      Bindings.insert_renamed otherLead.rename_injective]
    exact .own twins _ _ _
  erases name _ := by
    rw [isFirst, isSecond, Frame.eraseVariable, Frame.eraseVariable,
      Bindings.erase_renamed lead.rename_injective,
      Bindings.erase_renamed otherLead.rename_injective]
    exact .own twins _ _ _
  lands label jumps := by
    obtain ⟨place, _, found⟩ := twins.labels label (List.mem_filterMap.mpr ⟨_, mem, jumps⟩)
    rw [isFirst, isSecond]
    exact .inl ⟨place + 1, twins.first.target? found, twins.second.target? found, .own twins _ _ _⟩
  links name count _ := by
    rw [isFirst, isSecond]
    exact same.links name
  enters := by rw [scenes]; rfl
  leaves _ := by rw [scenes]; rfl

/-- The next instruction reads a variable that has no value, in both programs. -/
def BothUnset (maxDepth : Nat) (first second : Machine) : Prop :=
  ∃ name other, first.step maxDepth = first.advance.fail (.uninitializedVariable name) ∧
    second.step maxDepth = second.advance.fail (.uninitializedVariable other)

theorem advance_twinning (machines : (twinning home others).Machines first second) :
    (twinning home others).Machines first.advance second.advance := by
  obtain ⟨frames, callers, depth, stack, scene⟩ := machines
  refine ⟨?_, callers, depth, stack, scene⟩
  rw [advance, advance]
  dsimp only
  generalize first.frame = frame, second.frame = other at frames
  cases frames with
  | same => exact .same _
  | own twins offset locals base => exact .own twins (offset + 1) locals base

/-- A step keeps the programs together, unless they read a variable that has no value. -/
theorem step_twinning (same : SameDefinitions home.routines others) (limit : Nat)
    (machines : (twinning home others).Machines first second) :
    (twinning home others).Outcomes (first.step limit) (second.step limit) ∨
      BothUnset limit first second := by
  have moved := advance_twinning machines
  have scenes : first.scene = second.scene := machines.scene
  have frames := machines.frame
  generalize isFirst : first.frame = frame, isSecond : second.frame = other at frames
  cases frames with
  | same frame =>
    left
    apply moved.step
    rw [isFirst, isSecond]
    cases frame.routine.code[frame.offset]? with
    | none => exact .none
    | some line =>
      refine .some ?_
      rw [← line.1.renamed_id]
      have sameFrame : first.advance.frame = second.advance.frame := by
        rw [advance, advance, isFirst, isSecond]
      refine moved.execute limit (Pairing.alike_self (by rw [sameFrame]) (by rw [sameFrame])
        (fun _ => ?_) (fun _ => ?_) (fun name _ _ => ?_) ?_ fun _ => ?_)
      · rw [sameFrame]
        exact .same _
      · rw [sameFrame]
        exact .same _
      · rw [sameFrame]
        cases second.advance.frame.home.exported? name with
        | none => exact .none
        | some link => exact .some ⟨rfl, fun _ _ => .same _⟩
      · exact congrArg (fun scene => Scene.mk scene.board.save scene.log.openMark) scenes
      · exact congrArg (fun scene => Scene.mk scene.board.restore scene.log.closeMark) scenes
  | @own defn lines lead otherLead routine other twins offset locals base =>
    have here := twins.first.getElem? offset
    have there := twins.second.getElem? offset
    cases found : lines[offset]? with
    | none =>
      left
      apply moved.step
      rw [found] at here there
      rw [isFirst, isSecond, here, there]
      exact .none
    | some line =>
      obtain ⟨instr, span⟩ := line
      rw [found] at here there
      have nowFirst : first.advance.frame =
          ⟨home, routine, offset + 1, locals.renamed lead.rename, base⟩ := by
        rw [advance, isFirst]
      have nowSecond : second.advance.frame =
          ⟨{ home with routines := others }, other, offset + 1, locals.renamed otherLead.rename,
            base⟩ := by
        rw [advance, isSecond]
      by_cases unset : ∃ name, instr = .pushVariable name ∧ Table.get? locals name = none
      · right
        obtain ⟨name, rfl, unset⟩ := unset
        refine ⟨lead.rename name, otherLead.rename name, ?_, ?_⟩
        · simp only [step, isFirst, here, Option.map_some, Instruction.renamed, execute, nowFirst,
            Bindings.get?_renamed lead.rename_injective, unset]
        · simp only [step, isSecond, there, Option.map_some, Instruction.renamed, execute,
            nowSecond, Bindings.get?_renamed otherLead.rename_injective, unset]
      · left
        apply moved.step
        rw [isFirst, isSecond, here, there]
        refine .some (moved.execute limit (alike_own same twins nowFirst nowSecond scenes
          (mem_of_getElem? found) fun name isPush isUnset => ?_))
        exact unset ⟨name, isPush, isUnset⟩

/-- The programs come to the same end, unless they end when they read a variable that has no
value; then the errors differ in its name at most. -/
theorem run_twinning (same : SameDefinitions home.routines others) (limit budget : Nat)
    (machines : (twinning home others).Machines first second) :
    first.run limit budget = second.run limit budget ∨
      ∃ (error : Error) (name other : String) (scene : Scene), first.run limit budget =
          some (.error { error with cause := .uninitializedVariable name }, scene) ∧
        second.run limit budget =
          some (.error { error with cause := .uninitializedVariable other }, scene) := by
  induction budget generalizing first second with
  | zero => exact .inl rfl
  | succ budget ih =>
    rw [run, run]
    rcases step_twinning same limit machines with outcomes | ⟨name, other, fails, failsToo⟩
    · generalize first.step limit = outcome, second.step limit = otherOutcome at outcomes
      cases outcomes with
      | next next => exact ih next
      | done result scenes =>
        cases scenes
        exact .inl rfl
      | fault error scenes =>
        cases scenes
        exact .inl rfl
    · right
      have moved := advance_twinning machines
      rw [fails, failsToo]
      have scenes : first.advance.scene = second.scene := machines.scene
      refine ⟨second.advance.error (.uninitializedVariable name), name, other, second.scene, ?_,
        rfl⟩
      rw [fail, moved.error, scenes]
      rfl

end Machine

end StoneBoard
