import StoneBoard.Proofs.Links
import StoneBoard.Proofs.LoopCode
import StoneBoard.Proofs.Transparency

/-!
# Parameters and indices at run time

From the moment when a call begins until it ends, its parameters are bound to the arguments.
From the moment when the body of a loop is entered until control reaches the code behind the body,
the index and the hidden limit of the loop have the values that they had then, whatever the body
does and calls.  The frame of the call is followed below all frames that come and go above it.
-/

namespace StoneBoard

open List

variable {opts : Settings} {file src : String} {names : List String} {code : List Line}
  {defn : Definition} {counters : Counters} {routine : Routine}
variable {mods : List Analyzed} {here site : Site} {ended : Machine → Prop} {offset : Nat}

/-! ## Accepted definitions -/

namespace Library

variable {annotated : Program}

theorem careful_of_conclude {entry : Bool} {imported : Interface} {prog : Program}
    {iface : Interface} {places : Span → Prop}
    (asRead : ∀ defn ∈ prog.definitions, defn.AsRead places)
    (concluded : conclude opts entry imported prog = .ok (annotated, iface)) :
    ∀ defn ∈ annotated.definitions, defn.Careful := by
  obtain ⟨checked, -, keepsAll⟩ := checked_of_conclude concluded
  obtain ⟨-, -, -, locals, -, definitionsChecked⟩ := Check.checkDefinitions_eq_ok checked
  intro defn mem
  obtain ⟨orig, isOriginal, keeps⟩ := keepsAll.exists_original mem
  have careful := Definition.Careful.of_checkDefinition (definitionsChecked orig isOriginal)
    (asRead orig isOriginal).parameters
  exact careful.keeps keeps

theorem hereditary_careful : Hereditary opts fun mods =>
    ∀ known ∈ mods, ∀ defn ∈ known.program.definitions, defn.Careful := by
  intro mods known src prog _ areCareful _ read analyzed
  obtain ⟨imported, -, concluded⟩ := loads_analyzeProgram.mp (analyzed empty)
  have asRead := ((Program.ofText_read src).2 prog read).definitions
  exact List.forall_mem_cons.mpr ⟨careful_of_conclude asRead concluded, areCareful⟩

end Library

open Library

/-- The definitions of an accepted program and of the modules behind it are careful. -/
theorem Site.careful_of_ofEntry? (accepted : ofEntry? opts file src = some site)
    (holds : site.Holds here) : ∀ defn ∈ here.program.definitions, defn.Careful := by
  obtain ⟨loads, -⟩ := sound_of_ofEntry? accepted
  obtain ⟨grows, text, _, _, read, ⟨_, completed⟩, lookups⟩ :=
    lookup_of_analyzeEntry hereditary_careful loads trivial (forall_mem_nil _)
  rcases holds with rfl | ⟨name, isModule⟩
  · obtain ⟨imported, -, concluded⟩ := loads_analyzeProgram.mp (lookups empty)
    have asRead := ((Program.ofText_read src).2 text read).definitions
    exact careful_of_conclude (completed.definitions ▸ asRead) concluded
  · obtain ⟨known, mem, -, isProgram⟩ := ModulesSound.mem_of_module? isModule
    exact isProgram ▸ grows.valid known mem

theorem Site.main_of_ofEntry? (accepted : ofEntry? opts file src = some site)
    {main : Definition} (found : site.program.definition? "Main" = some main) :
    main.parameters = [] := by
  obtain ⟨loads, -⟩ := sound_of_ofEntry? accepted
  obtain ⟨_, _, _, _, -, -, analyzed⟩ := loads_analyzeEntry_iff.mp loads
  obtain ⟨imported, -, concluded⟩ := loads_analyzeProgram.mp analyzed
  obtain ⟨checked, -, keeps⟩ := checked_of_conclude concluded
  obtain ⟨mainChecked, -⟩ := Check.checkDefinitions_eq_ok checked
  obtain ⟨orig, isOriginal, -, noParameters⟩ := Check.checkMain_eq_ok (mainChecked rfl)
  obtain ⟨_, sameMain, keepsMain⟩ := keeps.definition? isOriginal
  cases found.symm.trans sameMain
  exact keepsMain.parameters.trans noParameters

/-! ## Code of careful definitions -/

def Unwritten (names : List String) (code : List Line) : Prop :=
  ∀ line ∈ code, ∀ name ∈ names, line.1.written? ≠ some name

theorem Compilation.Gentle.unwritten {hidden : Nat} (gentle : Gentle names hidden code)
    (identifiers : ∀ name ∈ names, IsIdentifier name) : Unwritten names code := by
  intro line mem name isKept written
  rcases (gentle line mem).2 name written with ⟨-, free⟩ | ⟨own, -, isHidden⟩
  · exact free isKept
  · exact own.hiddenName_ne (identifiers name isKept) isHidden.symm

/-- The code of a careful definition: between its first and its last instructions stands code that
does not write to the parameters. -/
theorem Definition.CompilesTo.inner (compiled : defn.CompilesTo routine)
    (careful : defn.Careful) (named : defn.Named) : ∃ code span returns, routine.code.toList =
        (if defn.kind = .function then [(.enter, defn.span)] else []) ++ code ++
        (if defn.kind = .function then [(.leave, span)] else []) ++ [(returns, span)] ∧
      returns.isReturn = true ∧ Compilation.Gentle defn.parameters 0 code ∧
      routine.kind = defn.kind := by
  obtain ⟨counters, after, compiled⟩ := compiled
  simp only [Compilation.compileDefinition, bind_eq_ok, pure_eq_ok, Prod.exists,
    Prod.mk.injEq] at compiled
  obtain ⟨body, between, compiledBody, ending, _, compiledEnding, _, assembled, rfl, -⟩ := compiled
  have bodySpares : Stmt.SparesAll defn.parameters (Compilation.bodyBeforeReturn defn) :=
    (Stmt.sparesAll_iff _ _).mpr fun stmt mem =>
      (Stmt.sparesAll_iff _ _).mp careful.spares stmt
        (Definition.mem_of_mem_bodyBeforeReturn mem)
  have gentle := (Compilation.emits_block _ compiledBody).gentle _ ⟨named.body, bodySpares⟩
  obtain ⟨code, span, returns, rfl, isReturn, quiet, -⟩ :=
    Compilation.compileReturn_parts compiledEnding
  refine ⟨body ++ code, span, returns, ?_, isReturn,
    Compilation.gentle_append.mpr ⟨gentle.later (Nat.zero_le _), quiet.gentle _ _⟩,
    (Routine.assemble_eq_ok assembled).2.1⟩
  rw [Routine.code_of_assemble assembled]
  simp only [append_assoc]

/-- The code of a careful definition writes to variables of the program that are not parameters,
and to hidden ones. -/
theorem Definition.CompilesTo.writes (compiled : defn.CompilesTo routine)
    (careful : defn.Careful) (named : defn.Named) :
    ∀ line ∈ routine.code.toList, ∀ name, line.1.written? = some name →
      (IsIdentifier name ∧ name ∉ defn.parameters) ∨
        ∃ own : Compilation.Counters, name = own.hiddenName := by
  obtain ⟨code, span, returns, isCode, isReturn, gentle, -⟩ := compiled.inner careful named
  have silent : ∀ line ∈ routine.code.toList, line ∈ code ∨ line.1.written? = none := by
    rw [isCode]
    intro line mem
    simp only [mem_append, mem_singleton, mem_ite_nil_right] at mem
    rcases mem with ((⟨-, rfl⟩ | inside) | ⟨-, rfl⟩) | rfl
    · exact .inr rfl
    · exact .inl inside
    · exact .inr rfl
    · cases returns <;> cases isReturn <;> exact .inr rfl
  intro line mem name written
  rcases silent line mem with inside | writesNothing
  · exact ((gentle line inside).2 name written).imp_right fun ⟨own, _, isHidden⟩ => ⟨own, isHidden⟩
  · cases writesNothing.symm.trans written

theorem Definition.CompilesTo.unwritten (compiled : defn.CompilesTo routine)
    (careful : defn.Careful) (named : defn.Named) :
    Unwritten defn.parameters routine.code.toList := by
  intro line mem name isKept written
  rcases compiled.writes careful named line mem name written with ⟨-, free⟩ | ⟨own, isHidden⟩
  · exact free isKept
  · exact own.hiddenName_ne (careful.identifiers name isKept) isHidden.symm

/-! ## Steps of one frame -/

namespace Machine

variable {maxDepth start stop : Nat} {next machine first last : Machine} {callers : List Frame}
  {good : Frame → Prop} {locals : Bindings}

/-- What a step does to the frames: the innermost one goes on, with a new value for the variable
that its instruction writes only, or it calls a routine that its module knows, or it ends. -/
inductive Proceeds (machine : Machine) (instruction : Instruction) (next : Machine) : Prop
  | stays {offset : Nat} {locals : Bindings}
      (frame : next.frame = { machine.frame with offset, locals })
      (callers : next.callers = machine.callers)
      (place : offset = machine.frame.offset + 1 ∨ ∃ label, instruction.target? = some label ∧
        machine.frame.routine.target? label = some offset)
      (others : ∀ name, instruction.written? ≠ some name →
        Table.get? locals name = Table.get? machine.frame.locals name)
  | enters {name : String} {count : Nat} {home : CompiledModule} {routine : Routine}
      (isCall : instruction = .call name count)
      (known : machine.frame.home.exported? name = some (home, routine))
      (callers : next.callers = machine.advance.frame :: machine.callers)
  | leaves (returns : instruction.isReturn = true)
      (callers : machine.callers = next.frame :: next.callers)

section Step

variable {machine : Machine}

theorem step_proceeds (stepped : machine.step maxDepth = .next next) : ∃ instr span,
      machine.frame.routine.code[machine.frame.offset]? = some (instr, span) ∧
        machine.Proceeds instr next := by
  obtain ⟨instr, span, found, does⟩ := does_of_step stepped
  refine ⟨instr, span, found, ?_⟩
  cases does with
  | goes _ _ place others => exact .stays rfl rfl place others
  | records | saves | restores => exact .stays rfl rfl (.inl rfl) fun _ _ => rfl
  | calls _ _ isCall known => exact .enters isCall known rfl
  | returns _ isReturn waiting => exact .leaves isReturn waiting

/-- A step after which more callers are waiting begins a call. -/
theorem callee?_of_deeper {entered : Machine} (stepped : machine.step maxDepth = .next entered)
    (deeper : machine.callers.length < entered.callers.length) :
    ∃ name count home routine, machine.callee? = some (name, count, home, routine) := by
  obtain ⟨instr, span, found, proceeds⟩ := step_proceeds stepped
  cases proceeds with
  | stays _ callers =>
    rw [callers] at deeper
    exact absurd deeper (Nat.lt_irrefl _)
  | @enters name count home routine isCall known _ =>
    subst isCall
    exact ⟨name, count, home, routine, by simp only [callee?, found, known, Option.map_some]⟩
  | leaves _ callers =>
    rw [callers, length_cons] at deeper
    omega

end Step

/-! ## Frames that are followed -/

def Covers (machine : Machine) (callers : List Frame) (good : Frame → Prop) : Prop :=
  ∃ inner frame, machine.frames = inner ++ frame :: callers ∧ good frame

theorem Covers.mono {better : Frame → Prop} (covers : machine.Covers callers good)
    (implies : ∀ frame, good frame → better frame) : machine.Covers callers better := by
  obtain ⟨inner, frame, split, isGood⟩ := covers
  exact ⟨inner, frame, split, implies frame isGood⟩

theorem Covers.step {popped : Machine → Prop} (covers : machine.Covers callers good)
    (stepped : machine.step maxDepth = .next next)
    (innermost : machine.callers = callers → good machine.frame →
      next.Covers callers good ∨ popped next) : next.Covers callers good ∨ popped next := by
  obtain ⟨inner, frame, split, isGood⟩ := covers
  cases inner with
  | nil =>
    obtain ⟨rfl, sameCallers⟩ := List.cons.inj split
    exact innermost sameCallers isGood
  | cons top rest =>
    left
    have sameCallers : machine.callers = rest ++ frame :: callers := (List.cons.inj split).2
    obtain ⟨instr, span, -, proceeds⟩ := step_proceeds stepped
    cases proceeds with
    | stays _ newCallers =>
      refine ⟨next.frame :: rest, frame, ?_, isGood⟩
      rw [frames, newCallers, sameCallers, cons_append]
    | enters _ _ newCallers =>
      refine ⟨next.frame :: machine.advance.frame :: rest, frame, ?_, isGood⟩
      rw [frames, newCallers, sameCallers, cons_append, cons_append]
    | leaves _ oldCallers =>
      refine ⟨rest, frame, ?_, isGood⟩
      rw [frames, ← oldCallers, sameCallers]

/-- Steps that are taken until something is over: none of them begins when it is. -/
inductive Until (maxDepth : Nat) (ended : Machine → Prop) : Machine → Machine → Prop
  | refl (machine : Machine) : Until maxDepth ended machine machine
  | head {first second last : Machine} (goesOn : ¬ ended first)
      (stepped : first.step maxDepth = .next second) (rest : Until maxDepth ended second last) :
      Until maxDepth ended first last

/-- A frame is followed until it is popped, or until what it is followed for is over. -/
theorem Until.covers (popped : Machine → Prop) (steps : Until maxDepth ended first last)
    (innermost : ∀ machine next, ¬ ended machine → machine.callers = callers →
      good machine.frame → machine.step maxDepth = .next next →
      next.Covers callers good ∨ popped next)
    (ends : ∀ machine, popped machine → ended machine) (start : first.Covers callers good) :
    last.Covers callers good ∨ popped last := by
  induction steps with
  | refl => exact .inl start
  | head goesOn stepped rest ih =>
    rcases start.step stepped (innermost _ _ goesOn · · stepped) with covers | isPopped
    · exact ih covers
    · cases rest with
      | refl => exact .inr isPopped
      | head stillOn => exact absurd (ends _ isPopped) stillOn

structure Keeps (routine : Routine) (names : List String) (locals : Bindings) (frame : Frame) :
    Prop where
  routine : frame.routine = routine
  values : ∀ name ∈ names, Table.get? frame.locals name = Table.get? locals name

/-- An instruction that does not write to some names keeps them, even if it calls a routine. -/
theorem Keeps.step (keeps : Keeps routine names locals machine.frame)
    (stepped : machine.step maxDepth = .next next) (unwritten : ∀ instr span,
      routine.code[machine.frame.offset]? = some (instr, span) →
        ∀ name ∈ names, instr.written? ≠ some name) :
    ∃ instr span, routine.code[machine.frame.offset]? = some (instr, span) ∧
      ((next.Covers machine.callers fun frame => (Keeps routine names locals frame ∧
          frame.home = machine.frame.home) ∧
          (frame.offset = machine.frame.offset + 1 ∨ ∃ label,
            instr.target? = some label ∧ routine.target? label = some frame.offset)) ∨
        instr.isReturn = true ∧ next.frames = machine.callers) := by
  obtain ⟨instr, span, found, proceeds⟩ := step_proceeds stepped
  rw [keeps.routine] at found
  refine ⟨instr, span, found, ?_⟩
  cases proceeds with
  | stays newFrame newCallers place others =>
    rw [keeps.routine] at place
    refine .inl ⟨[], next.frame, by rw [frames, newCallers, nil_append], ?_⟩
    rw [newFrame]
    refine ⟨⟨⟨keeps.routine, fun name isKept => ?_⟩, rfl⟩, place⟩
    exact (others name (unwritten instr span found name isKept)).trans (keeps.values name isKept)
  | enters _ _ newCallers =>
    refine .inl ⟨[next.frame], machine.advance.frame, by rw [frames, newCallers]; rfl, ?_⟩
    exact ⟨⟨⟨keeps.routine, keeps.values⟩, rfl⟩, .inl rfl⟩
  | leaves returns oldCallers => exact .inr ⟨returns, oldCallers.symm⟩

/-- What code does not write to stays until the call has ended. -/
theorem Until.keeps (unwritten : Unwritten names routine.code.toList)
    (isRoutine : first.frame.routine = routine)
    (steps : Until maxDepth (fun machine => machine.callers.length < first.callers.length)
      first last) : last.Covers first.callers (Keeps routine names first.frame.locals) ∨
      last.frames = first.callers := by
  refine steps.covers (fun machine => machine.frames = first.callers) ?_ ?_
    ⟨[], first.frame, rfl, isRoutine, fun _ _ => rfl⟩
  · intro machine next _ sameCallers keeps stepped
    obtain ⟨instr, span, -, covers | ⟨-, popped⟩⟩ := keeps.step stepped
      fun instr span found => unwritten (instr, span)
        (mem_of_getElem? (Array.getElem?_toList.trans found))
    · rw [sameCallers] at covers
      exact .inl (covers.mono fun frame isGood => isGood.1.1)
    · exact .inr (popped.trans sameCallers)
  · intro machine popped
    rw [← popped]
    exact Nat.lt_succ_self _

/-- A frame of a call is in a stretch of code, behind its first place, and has kept some
variables. -/
structure Within (home : CompiledModule) (routine : Routine) (names : List String)
    (locals : Bindings) (start stop : Nat) (frame : Frame) : Prop where
  keeps : Keeps routine names locals frame
  home : frame.home = home
  above : start < frame.offset
  below : frame.offset ≤ stop

theorem Keeps.within (keeps : Keeps routine names locals machine.frame)
    (encloses : routine.Encloses names start stop) (above : start ≤ machine.frame.offset)
    (notYet : machine.frame.offset < stop) (stepped : machine.step maxDepth = .next next) :
    next.Covers machine.callers (Within machine.frame.home routine names locals start stop) := by
  have line := encloses.lines machine.frame.offset above notYet
  obtain ⟨instr, span, found, covers | ⟨returns, -⟩⟩ := keeps.step stepped
    fun instr span found => (line instr span found).2.1
  · refine covers.mono ?_
    rintro frame ⟨⟨stillKeeps, sameHome⟩, next | ⟨label, jumps, leads⟩⟩
    · exact ⟨stillKeeps, sameHome, by omega, by omega⟩
    · obtain ⟨behind, inside⟩ := (line instr span found).2.2 label _ jumps leads
      exact ⟨stillKeeps, sameHome, behind, inside⟩
  · cases returns.symm.trans (Instruction.isReturn_of_isPlain (line instr span found).1)

/-- A frame in a stretch of code stays there until control reaches the end of the stretch. -/
theorem Until.within {home : CompiledModule} (encloses : routine.Encloses names start stop)
    (steps : Until maxDepth (fun machine => machine.callers.length = callers.length ∧
      machine.frame.offset = stop) first last)
    (begins : first.Covers callers (Within home routine names locals start stop)) :
    last.Covers callers (Within home routine names locals start stop) := by
  refine (steps.covers (fun _ => False) ?_ (fun _ => False.elim) begins).resolve_right id
  intro machine next goesOn sameCallers within stepped
  have notYet : machine.frame.offset < stop :=
    Nat.lt_of_le_of_ne within.below fun atEnd => goesOn ⟨by rw [sameCallers], atEnd⟩
  have covers := within.keeps.within encloses (Nat.le_of_lt within.above) notYet stepped
  rw [sameCallers, within.home] at covers
  exact .inl covers

/-- A stretch of code that control is in is left at its end only, and keeps what it does not
write to. -/
theorem Until.staysWithin (encloses : first.frame.routine.Encloses names start stop)
    (begins : start ≤ first.frame.offset) (inside : first.frame.offset ≤ stop)
    (steps : Until maxDepth (fun machine => machine.callers.length = first.callers.length ∧
      machine.frame.offset = stop) first last) : last.Covers first.callers fun frame =>
      Keeps first.frame.routine names first.frame.locals frame ∧
        start ≤ frame.offset ∧ frame.offset ≤ stop := by
  have keeps : Keeps first.frame.routine names first.frame.locals first.frame :=
    ⟨rfl, fun _ _ => rfl⟩
  cases steps with
  | refl => exact ⟨[], first.frame, rfl, keeps, begins, inside⟩
  | head goesOn stepped rest =>
    have notYet : first.frame.offset < stop :=
      Nat.lt_of_le_of_ne inside fun atEnd => goesOn ⟨rfl, atEnd⟩
    have covers := rest.within encloses (keeps.within encloses begins notYet stepped)
    exact covers.mono fun frame within =>
      ⟨within.keeps, Nat.le_of_lt within.above, within.below⟩

/-- If the next step begins a call, then the parameters are bound to the arguments that it takes
from the stack, until the call has ended. -/
def FixesParameters (maxDepth : Nat) (before : Machine) : Prop :=
  ∀ entered, before.step maxDepth = .next entered →
    before.callers.length < entered.callers.length →
    ∃ (name : String) (home : CompiledModule) (routine : Routine) (below : Stack)
        (arguments : List Value),
      before.callee? = some (name, arguments.length, home, routine) ∧
      before.stack = below.pushMany arguments ∧ routine.parameters.length = arguments.length ∧
      entered.frame.routine = routine ∧ entered.callers = before.advance.frames ∧
      ∀ later,
        Until maxDepth (fun machine => machine.callers.length < entered.callers.length)
          entered later →
        (later.Covers entered.callers fun frame => frame.routine = routine ∧
          ∀ entry ∈ routine.parameters.zip arguments,
            Table.get? frame.locals entry.1 = some entry.2) ∨
        later.frames = entered.callers

/-- If the body of a loop is entered, then the index and the limit of the loop stay as they are
until control reaches the code behind the body. -/
def FixesLoop (maxDepth : Nat) (entered : Machine) (index limit : String) (start stop : Nat) :
    Prop :=
  entered.frame.offset = start → ∀ later,
    Until maxDepth (fun machine => machine.callers.length = entered.callers.length ∧
      machine.frame.offset = stop) entered later →
    later.Covers entered.callers fun frame =>
      Keeps entered.frame.routine [index, limit] entered.frame.locals frame ∧
        start ≤ frame.offset ∧ frame.offset ≤ stop

theorem fixesParameters_of_unwritten {before : Machine}
    (careful : ∀ name count home routine, before.callee? = some (name, count, home, routine) →
      routine.parameters.Nodup ∧ Unwritten routine.parameters routine.code.toList) :
    before.FixesParameters maxDepth := by
  intro entered stepped deeper
  obtain ⟨name, count, home, routine, calls⟩ := callee?_of_deeper stepped deeper
  obtain ⟨nodup, unwritten⟩ := careful _ _ _ _ calls
  obtain ⟨arity, args, below, popped, rfl⟩ := step_of_callee? calls stepped
  obtain ⟨sameStack, rfl⟩ := Stack.pushMany_of_popMany? popped
  refine ⟨name, home, routine, below, args, calls, sameStack, arity, rfl, rfl, ?_⟩
  intro later steps
  refine (steps.keeps unwritten rfl).imp_left fun covers => covers.mono fun frame keeps => ?_
  refine ⟨keeps.routine, fun entry mem => ?_⟩
  have isParameter : entry.1 ∈ routine.parameters := (of_mem_zip mem).1
  have differ : ((routine.parameters.zip args).map Prod.fst).Nodup := by
    rwa [map_fst_zip (Nat.le_of_eq arity)]
  rw [keeps.values entry.1 isParameter]
  change Table.get? (Table.insertAll [] (routine.parameters.zip args)) entry.1 = _
  rw [Table.get?_insertAll, Table.get?_reverse differ, Table.get?_of_mem differ mem]
  rfl

end Machine

/-! ## Programs -/

/-- A loop does not stand in the final return, which is compiled in another way. -/
theorem Stmt.Inside.mem_bodyBeforeReturn {outer : Stmt} (mem : outer ∈ defn.body)
    {index : String} {lower upper : Expr} {body : List Stmt} {span : Span} {type : Option BasicTy}
    (inside : Stmt.Inside (.repeatWith index lower upper body span type) outer) :
    outer ∈ Compilation.bodyBeforeReturn defn := by
  rcases defn.mem_bodyBeforeReturn mem with early | isLast
  · exact early
  · rcases defn.finalReturn?_cases with ⟨_, _, returns⟩ | ⟨silent, -⟩
    · cases returns.symm.trans isLast
      cases inside
    · cases silent.symm.trans isLast

namespace Definition.CompilesTo

variable {defn : Definition} {routine : Routine} {index : String} {lower upper : Expr}
  {body : List Stmt} {span : Span} {type : Option BasicTy} {outer : Stmt}
variable {shapes : String → Option Shape}

theorem hasStmt (compiled : defn.CompilesTo routine) (mem : outer ∈ defn.body)
    (inside : Stmt.Inside (.repeatWith index lower upper body span type) outer) :
    routine.HasStmt (.repeatWith index lower upper body span type) := by
  obtain ⟨counters, between, after, code, ending, compiledBody, -, stands, -⟩ := compiled.parts
  simp only [Routine.hasCode_append] at stands
  have early := inside.mem_bodyBeforeReturn mem
  exact (Routine.hasStmt_of_block compiledBody stands.1.2 early).inside inside

theorem hasLoop (compiled : defn.CompilesTo routine) (mem : outer ∈ defn.body)
    (inside : Stmt.Inside (.repeatWith index lower upper body span type) outer) :
    ∃ limit start stop,
      routine.HasLoop (.repeatWith index lower upper body span type) index limit start stop :=
  (compiled.hasStmt mem inside).hasLoop

theorem tame (compiled : defn.CompilesTo routine) (careful : defn.Careful)
    (regular : defn.Regular shapes) (named : defn.Named) (mem : outer ∈ defn.body)
    (inside : Stmt.Inside (.repeatWith index lower upper body span type) outer) : routine.Placed ∧
      ∃ fixed, Stmt.Tame shapes fixed (.repeatWith index lower upper body span type) := by
  obtain ⟨_, _, _, _, _, -, -, -, -, -, placed⟩ := compiled.parts
  have early := inside.mem_bodyBeforeReturn mem
  have tame : outer.Tame shapes defn.parameters :=
    ⟨(Stmt.regularAll_iff _ _).mp regular.body outer early,
      (Stmt.namedAll_iff _).mp named outer mem,
      (Stmt.sparesAll_iff _ _).mp careful.spares outer mem⟩
  exact ⟨placed, inside.tame tame⟩

theorem encloses (compiled : defn.CompilesTo routine) (careful : defn.Careful)
    (regular : defn.Regular shapes) (named : defn.Named) (mem : outer ∈ defn.body)
    (inside : Stmt.Inside (.repeatWith index lower upper body span type) outer)
    {limit : String} {start stop : Nat}
    (hasLoop : routine.HasLoop (.repeatWith index lower upper body span type) index limit start
      stop) : routine.Encloses [index, limit] start stop := by
  obtain ⟨placed, _, loopTame⟩ := compiled.tame careful regular named mem inside
  exact hasLoop.encloses placed loopTame

end Definition.CompilesTo

namespace Site

variable {site : Site} {call : CompiledModule × Routine}

/-- A routine of a compiled module is the code of a definition of a program or of a module
behind it. -/
def Runs (site : Site) (call : CompiledModule × Routine) : Prop :=
  ∃ here definition, site.Holds here ∧ here.BuiltAs call.1 ∧
    definition ∈ here.program.definitions ∧ definition.CompilesTo call.2

theorem Runs.exported? {other : CompiledModule × Routine} (runs : site.Runs call)
    (sound : site.Sound) (modsSound : ModulesSound site.modules) {name : String}
    (exported : call.1.exported? name = some other) : site.Runs other := by
  obtain ⟨here, -, holds, hereBuilt, -, -⟩ := runs
  obtain ⟨there, defn, found, thereHolds, thereBuilt, compiles⟩ :=
    holds.exported? sound modsSound hereBuilt exported
  obtain ⟨hereSound, hereModules⟩ := holds.sound sound modsSound
  obtain ⟨-, -, mem, -⟩ := hereSound.routine? hereModules found
  exact ⟨there, defn, thereHolds, thereBuilt, mem, compiles⟩

theorem Runs.linked (runs : site.Runs call) (sound : site.Sound)
    (modsSound : ModulesSound site.modules) : ∃ here : Site, here.LinkedTo call.1 := by
  obtain ⟨here, defn, holds, built, mem, compiles⟩ := runs
  obtain ⟨hereSound, hereModules⟩ := holds.sound sound modsSound
  exact ⟨here, (built.realizes hereSound hereModules mem compiles).linked⟩

/-- In the runs of an accepted program, all calls are to the code of definitions, and the first one
has no parameters. -/
theorem runs_of_ofEntry? (accepted : ofEntry? opts file src = some site) :
    ∃ compiled main, fresh (loadEntry opts file src) = .ok compiled ∧
      compiled.routines.get? "Main" = some main ∧ main.parameters = [] ∧
      ∀ {maxDepth steps : Nat} {scene : Scene} {machine : Machine},
        Machine.Steps maxDepth 0 steps (Machine.start compiled main scene) machine →
        ∀ call ∈ machine.calls, site.Runs call := by
  obtain ⟨-, sound, modsSound, -⟩ := sound_of_ofEntry? accepted
  obtain ⟨compiled, defn, main, loaded, built, isMain, -, isRoutine, realizes⟩ :=
    compiled_of_ofEntry? accepted
  obtain ⟨_, _, _, _, _, -, -, -, -, sameParameters, -⟩ := realizes.compiled.parts
  have bare := main_of_ofEntry? accepted isMain
  refine ⟨compiled, main, loaded, isRoutine, sameParameters.trans bare, fun reached => ?_⟩
  refine reached.calls (fun call name other known exported =>
    known.exported? sound modsSound exported) (fun call mem => ?_)
  cases List.mem_singleton.mp mem
  exact ⟨site, defn, .inl rfl, built, mem_of_find?_eq_some isMain, realizes.compiled⟩

theorem Runs.careful (accepted : ofEntry? opts file src = some site) (runs : site.Runs call) :
    ∃ defn : Definition, defn.CompilesTo call.2 ∧ defn.Careful ∧
      defn.Named ∧ call.2.parameters = defn.parameters := by
  obtain ⟨-, sound, modsSound, -⟩ := sound_of_ofEntry? accepted
  obtain ⟨here, defn, holds, -, mem, compiles⟩ := runs
  obtain ⟨hereSound, -⟩ := holds.sound sound modsSound
  obtain ⟨_, _, _, _, _, -, -, -, -, sameParameters, -⟩ := compiles.parts
  exact ⟨defn, compiles, careful_of_ofEntry? accepted holds defn mem,
    (hereSound.regular defn mem).2, sameParameters⟩

theorem Runs.unwritten (accepted : ofEntry? opts file src = some site) (runs : site.Runs call) :
    call.2.parameters.Nodup ∧ Unwritten call.2.parameters call.2.code.toList := by
  obtain ⟨defn, compiles, careful, named, sameParameters⟩ := runs.careful accepted
  rw [sameParameters]
  exact ⟨careful.nodup, compiles.unwritten careful named⟩

end Site

/-- A program that is accepted is compiled, and in all its runs, the parameters of every call
stay bound to the arguments until the call has ended; the first one has none.  The routine at work
is the code of a definition, every loop in the definition has its code in the routine, and whenever
the body of a loop is entered, the index and the hidden limit keep their values until control
reaches the code behind the body. -/
theorem parameters_and_indices_stay {settings : Settings} {file source : String} {site : Site}
    (accepted : Site.ofEntry? settings file source = some site) :
    ∃ compiled main, fresh (loadEntry settings file source) = .ok compiled ∧
      compiled.routines.get? "Main" = some main ∧ main.parameters = [] ∧
      ∀ {maxDepth steps : Nat} {scene : Scene} {machine : Machine},
        Machine.Steps maxDepth 0 steps (Machine.start compiled main scene) machine →
        machine.FixesParameters maxDepth ∧
        site.Runs (machine.frame.home, machine.frame.routine) ∧
        ∀ {here : Site} {definition : Definition} {outer : Stmt} {index : String}
          {lower upper : Expr} {body : List Stmt} {span : Span} {type : Option BasicTy},
          site.Holds here → definition ∈ here.program.definitions →
          definition.CompilesTo machine.frame.routine → outer ∈ definition.body →
          Stmt.Inside (.repeatWith index lower upper body span type) outer →
          (∃ limit start stop, machine.frame.routine.HasLoop
            (.repeatWith index lower upper body span type) index limit start stop) ∧
          ∀ limit start stop, machine.frame.routine.HasLoop
              (.repeatWith index lower upper body span type) index limit start stop →
            machine.FixesLoop maxDepth index limit start stop := by
  obtain ⟨-, sound, modulesSound, -⟩ := Site.sound_of_ofEntry? accepted
  obtain ⟨compiled, main, loaded, isRoutine, bare, allRun⟩ := Site.runs_of_ofEntry? accepted
  refine ⟨compiled, main, loaded, isRoutine, bare, ?_⟩
  intro maxDepth steps scene machine reached
  have runs : site.Runs (machine.frame.home, machine.frame.routine) :=
    allRun reached _ List.mem_cons_self
  refine ⟨?_, runs, ?_⟩
  · refine Machine.fixesParameters_of_unwritten fun name count home routine calls => ?_
    obtain ⟨exported, -⟩ := Machine.callee?_eq_some calls
    exact (runs.exported? sound modulesSound exported).unwritten accepted
  · intro here definition outer index lower upper body span type holds member compiles isOuter
      inside
    refine ⟨compiles.hasLoop isOuter inside, fun limit start stop hasLoop begins later steps => ?_⟩
    obtain ⟨hereSound, -⟩ := holds.sound sound modulesSound
    obtain ⟨regular, named⟩ := hereSound.regular definition member
    have careful := Site.careful_of_ofEntry? accepted holds definition member
    have encloses := compiles.encloses careful regular named isOuter inside hasLoop
    refine steps.staysWithin encloses (Nat.le_of_eq begins.symm) ?_
    obtain @⟨_, _, _, _, _, _, _, _, _, _, -, -⟩ := hasLoop
    rw [begins]
    exact Nat.le_add_right _ _

/-! ## A call with a loop -/

open Compilation

deriving instance DecidableEq for Instruction, Routine

def Machine.until? (maxDepth : Nat) (ended : Machine → Prop) [DecidablePred ended] :
    Nat → Machine → Option Machine
  | 0, machine => some machine
  | count + 1, machine =>
      if ended machine then none
      else
        match machine.step maxDepth with
        | .next next => next.until? maxDepth ended count
        | _ => none

theorem Machine.Until.of_until? {maxDepth count : Nat} [DecidablePred ended]
    {machine last : Machine} (reached : until? maxDepth ended count machine = some last) :
    Until maxDepth ended machine last := by
  induction count generalizing machine with
  | zero =>
    cases reached
    exact .refl _
  | succ count ih =>
    rw [until?] at reached
    split at reached
    next => cases reached
    next goesOn =>
      split at reached
      next next stepped => exact .head goesOn stepped (ih reached)
      next => cases reached

theorem Routine.hasCode_of_begins (begins : code <+: routine.code.toList.drop offset) :
    routine.HasCode offset code := by
  obtain ⟨rest, split⟩ := begins
  intro index line found
  have early : index < code.length := (List.getElem?_eq_some_iff.mp found).1
  rw [← Array.getElem?_toList, ← getElem?_drop, ← split, getElem?_append_left early]
  exact found

theorem Site.Holds.of_head? {known : Analyzed} (isKnown : site.modules.head? = some known) :
    site.Holds ⟨known.program, site.modules.tail⟩ := by
  refine .inr ⟨known.name, ?_⟩
  rw [← cons_head?_tail isKnown, module?, if_pos rfl, tail_cons]

def Definition.routine? (counters : Counters) (definition : Definition) : Option Routine :=
  match compileDefinition counters definition with
  | .ok (routine, _) => some routine
  | .error _ => none

theorem Definition.CompilesTo.of_routine? (found : defn.routine? counters = some routine) :
    defn.CompilesTo routine := by
  unfold routine? at found
  split at found
  next compiled =>
    cases found
    exact ⟨counters, _, compiled⟩
  next => cases found

structure LoopPlace where
  index : String
  limit : String
  start : Nat
  stop : Nat

def Routine.loopPlace? (routine : Routine) (offset : Nat) (counters : Counters) :
    Stmt → Option LoopPlace
  | .repeatWith index lower upper body span type =>
      let head := loopHead counters index lower upper span
      match compileBlock head.2 body with
      | .ok (bodyCode, _) =>
          let code := head.1 ++ bodyCode ++ loopTail counters index span type
          let start := offset + head.1.length
          if code <+: routine.code.toList.drop offset then
            some ⟨index, counters.hiddenName, start, start + bodyCode.length⟩
          else none
      | .error _ => none
  | _ => none

theorem Routine.HasLoop.of_loopPlace? {loop : Stmt} {place : LoopPlace}
    (found : routine.loopPlace? offset counters loop = some place) :
    ∃ lower upper body span type, loop = .repeatWith place.index lower upper body span type ∧
      routine.HasLoop loop place.index place.limit place.start place.stop := by
  unfold loopPlace? at found
  split at found
  next index lower upper body span type =>
    dsimp only at found
    split at found
    next compiled =>
      split at found
      next begins =>
        cases found
        exact ⟨lower, upper, body, span, type, rfl, .intro compiled (hasCode_of_begins begins)⟩
      next => cases found
    next => cases found
  next => cases found

/-- The parameter of `east` in the call that `Main` begins after three steps, and the loop in this
call when its body is entered for the second time. -/
theorem walk_keeps_parameter_and_index :
    ∃ (site : Site) (compiled : CompiledModule) (main : Routine)
        (before entered inside last : Machine) (place : LoopPlace),
      Site.ofEntry? walkSettings "main.gbs" walkSource = some site ∧
      fresh (loadEntry walkSettings "main.gbs" walkSource) = .ok compiled ∧
      compiled.routines.get? "Main" = some main ∧
      Machine.Steps 2 0 3 (.start compiled main (.ofBoard (.blank 3 1))) before ∧
      before.step 2 = .next entered ∧ before.callers.length < entered.callers.length ∧
      before.FixesParameters 2 ∧
      Machine.Steps 2 0 26 (.start compiled main (.ofBoard (.blank 3 1))) inside ∧
      inside.frame.offset = place.start ∧ place.start < place.stop ∧
      Table.get? inside.frame.locals place.index = some (.int 2) ∧
      Table.get? inside.frame.locals place.limit = some (.int 2) ∧
      inside.FixesLoop 2 place.index place.limit place.start place.stop ∧
      Machine.Until 2 (fun machine => machine.callers.length = inside.callers.length ∧
        machine.frame.offset = place.stop) inside last ∧ last.frame.offset = place.stop := by
  obtain ⟨site, accepted⟩ := walk_accepted
  obtain ⟨compiled, main, loaded, isMain, -, stay⟩ := parameters_and_indices_stay accepted
  have called : (do
      let compiled ← (fresh (loadEntry walkSettings "main.gbs" walkSource)).toOption
      let main ← compiled.routines.get? "Main"
      let before ← (Machine.start compiled main (.ofBoard (.blank 3 1))).after? 2 0 3
      let entered ← before.after? 2 0 1
      if before.callers.length < entered.callers.length then some () else none) =
        some () := by decide +kernel
  have looped : (do
      let site ← Site.ofEntry? walkSettings "main.gbs" walkSource
      let known ← site.modules.head?
      let definition ← known.program.definitions.head?
      let loop ← definition.body.head?
      let compiled ← (fresh (loadEntry walkSettings "main.gbs" walkSource)).toOption
      let main ← compiled.routines.get? "Main"
      let inside ← (Machine.start compiled main (.ofBoard (.blank 3 1))).after? 2 0 26
      let place ← inside.frame.routine.loopPlace? 1 ⟨0, 0⟩ loop
      let last ← inside.until? 2 (fun machine =>
        machine.callers.length = inside.callers.length ∧ machine.frame.offset = place.stop) 4
      if definition.routine? ⟨0, 0⟩ = some inside.frame.routine ∧
        inside.frame.offset = place.start ∧ place.start < place.stop ∧
        last.frame.offset = place.stop ∧
        Table.get? inside.frame.locals place.index = some (.int 2) ∧
        Table.get? inside.frame.locals place.limit = some (.int 2) then some () else none) =
          some () := by decide +kernel
  rw [loaded] at called
  rw [accepted, loaded] at looped
  simp only [Except.toOption, Option.bind_eq_bind, Option.bind_some, isMain,
    Option.bind_eq_some_iff] at called looped
  obtain ⟨before, early, entered, enters, isDeeper⟩ := called
  obtain ⟨known, isKnown, definition, isDefinition, loop, isLoop, inside, reached, place, isPlace,
    last, ends, isInside⟩ := looped
  have deeper := (Option.ite_none_right_eq_some.mp isDeeper).1
  obtain ⟨compiles, begins, proper, atEnd, isIndex, isLimit⟩ :=
    (Option.ite_none_right_eq_some.mp isInside).1
  obtain ⟨fixesParameters, -⟩ := stay (.of_after? early)
  obtain ⟨-, -, fixesLoops⟩ := stay (.of_after? reached)
  have stepped : before.step 2 = .next entered := by
    cases Machine.Steps.of_after? enters with
    | head _ stepped rest =>
      cases rest
      exact stepped
  obtain ⟨lower, upper, body, span, type, rfl, hasLoop⟩ := Routine.HasLoop.of_loopPlace? isPlace
  obtain ⟨-, fixes⟩ := fixesLoops (.of_head? isKnown) (List.mem_of_mem_head? isDefinition)
    (.of_routine? compiles) (List.mem_of_mem_head? isLoop) .here
  exact ⟨site, compiled, main, before, entered, inside, last, place, accepted, loaded, isMain,
    .of_after? early, stepped, deeper, fixesParameters, .of_after? reached, begins, proper, isIndex,
    isLimit, fixes _ _ _ hasLoop, .of_until? ends, atEnd⟩

end StoneBoard
