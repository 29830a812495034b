import StoneBoard.Proofs.Agreement
import StoneBoard.Proofs.Conduct

/-!
# Calls and their frames

A call of a routine that comes back leaves the variables of the caller and the stack below
the arguments as they were, and puts as many values in the place of the arguments as the
routine was checked for.  Whatever has been saved and marked during the call is gone again.
If the routine is a function, the board is as it was, and all that the call has added to the
log is marked as undone.
-/

namespace StoneBoard

open List

variable {defn : Definition} {limit count : Nat} {last : Machine}
variable {home : CompiledModule} {routine : Routine} {before after : Machine}

/-! ## The programs behind frames -/

namespace Site

variable {name : String}
variable {mods : List Analyzed} {src : String}

def Holds (site here : Site) : Prop :=
  here = site ∨ ∃ source, module? site.modules source = some here

theorem modules_suffix {here : Site} (found : module? mods src = some here) :
    here.modules <:+ mods := by
  induction mods with
  | nil => cases found
  | cons known older ih =>
    rw [module?] at found
    split at found
    · cases found
      exact suffix_cons _ _
    · exact (ih found).trans (suffix_cons _ _)

theorem module?_of_exported? (sound : ModulesSound mods) {other : Site}
    (found : exported? name mods src = some (other, defn)) :
    ∃ origin, module? mods origin = some other := by
  induction mods generalizing src with
  | nil => cases found
  | cons known older ih =>
    have older_suffix := suffix_cons known older
    rw [exported?] at found
    split at found
    · split at found
      · cases found
        exact ⟨known.name, by rw [module?, if_pos rfl]⟩
      · split at found
        · obtain ⟨origin, isModule⟩ := ih sound.2.2.2 found
          exact ⟨origin, sound.module?_of_suffix older_suffix isModule⟩
        · cases found
    · obtain ⟨origin, isModule⟩ := ih sound.2.2.2 found
      exact ⟨origin, sound.module?_of_suffix older_suffix isModule⟩

variable {site here other : Site}

theorem Holds.sound (holds : site.Holds here) (sound : site.Sound)
    (mods : ModulesSound site.modules) : here.Sound ∧ ModulesSound here.modules := by
  rcases holds with rfl | ⟨src, found⟩
  · exact ⟨sound, mods⟩
  · exact mods.module? found

theorem Holds.suffix (holds : site.Holds here) : here.modules <:+ site.modules := by
  rcases holds with rfl | ⟨src, found⟩
  · exact suffix_rfl
  · exact modules_suffix found

theorem Holds.routine? (holds : site.Holds here) (sound : site.Sound)
    (mods : ModulesSound site.modules) (found : here.routine? name = some (other, defn)) :
    site.Holds other := by
  rw [Site.routine?] at found
  split at found
  · cases found
    exact holds
  · split at found
    · obtain ⟨origin, isModule⟩ := module?_of_exported? (holds.sound sound mods).2 found
      exact .inr ⟨origin, mods.module?_of_suffix holds.suffix isModule⟩
    · cases found

theorem Holds.exported? (holds : site.Holds here) (sound : site.Sound)
    (mods : ModulesSound site.modules) {otherHome : CompiledModule} (built : here.BuiltAs home)
    (exported : home.exported? name = some (otherHome, routine)) :
    ∃ other defn, here.routine? name = some (other, defn) ∧ site.Holds other ∧
      other.BuiltAs otherHome ∧ defn.CompilesTo routine := by
  obtain ⟨hereSound, hereModules⟩ := holds.sound sound mods
  have same := built.exported? hereSound hereModules name
  cases known : here.routine? name with
  | none =>
    rw [known, exported] at same
    cases same
  | some known' =>
    obtain ⟨other, defn⟩ := known'
    rw [known, exported] at same
    obtain ⟨_, _, isOther, otherBuilt, compiled⟩ := same
    cases isOther
    exact ⟨other, defn, rfl, holds.routine? sound mods known, otherBuilt, compiled⟩

end Site

namespace Machine

variable {after : Machine} {floor : Nat}

/-! ## Steps and frames -/

def homes (machine : Machine) : List CompiledModule := machine.frames.map Frame.home

def calls (machine : Machine) : List (CompiledModule × Routine) :=
  machine.frames.map fun frame => (frame.home, frame.routine)

theorem homes_eq (machine : Machine) : machine.homes = machine.calls.map Prod.fst := by
  simp [homes, calls]

/-- How a step changes the calls under way: not at all, or it adds a routine that the
innermost module knows, or it ends the innermost call. -/
inductive Moves (machine after : Machine) : Prop
  | stays (same : after.calls = machine.calls)
  | enters {name : String} {home : CompiledModule} {routine : Routine}
      (known : machine.frame.home.exported? name = some (home, routine))
      (added : after.calls = (home, routine) :: machine.calls)
  | leaves (removed : after.calls = machine.calls.tail)

variable {machine : Machine}

theorem step_moves (stepped : machine.step limit = .next after) : machine.Moves after := by
  obtain ⟨instr, span, -, does⟩ := does_of_step stepped
  cases does with
  | goes | records | saves | restores => exact .stays rfl
  | calls _ _ _ known => exact .enters known rfl
  | returns _ _ waiting => exact .leaves (by simp [calls, frames, waiting])

/-- What holds of all calls, and of every routine that the module of one of them knows, holds of
all calls after a step. -/
theorem Moves.calls {good : CompiledModule × Routine → Prop} (moves : machine.Moves after)
    (closed : ∀ call name other, good call → call.1.exported? name = some other → good other)
    (start : ∀ call ∈ machine.calls, good call) : ∀ call ∈ after.calls, good call := by
  cases moves with
  | stays same => rwa [same]
  | enters known added =>
    have first : good (machine.frame.home, machine.frame.routine) := start _ mem_cons_self
    rw [added]
    exact List.forall_mem_cons.mpr ⟨closed _ _ _ first known, start⟩
  | leaves removed =>
    rw [removed]
    exact fun call mem => start call (mem_of_mem_tail mem)

/-- What holds of the first module, and of all that a module knows, holds of all modules that
a run gets to. -/
theorem Steps.homes {first : Machine} {good : CompiledModule → Prop}
    (steps : Steps limit floor count first last)
    (closed : ∀ home name other routine, good home → home.exported? name = some (other, routine) →
      good other) (start : ∀ home ∈ first.homes, good home) : ∀ home ∈ last.homes, good home := by
  induction steps with
  | refl => exact start
  | head _ stepped _ ih =>
    apply ih
    simp only [homes_eq, forall_mem_map] at start ⊢
    apply (step_moves stepped).calls _ start
    exact fun call name other isGood known => closed call.1 name other.1 other.2 isGood known

/-! ## Calls that come back -/

/-- The routine that the next instruction calls: its name, the number of arguments, and where
it is. -/
def callee? (machine : Machine) : Option (String × Nat × CompiledModule × Routine) :=
  match machine.frame.routine.code[machine.frame.offset]? with
  | some (.call name count, _) =>
      (machine.frame.home.exported? name).map fun (home, routine) => (name, count, home, routine)
  | _ => none

/-- A call comes back: after the step that begins it, all steps are taken inside of it, until
as many callers are waiting as before. -/
def ComesBack (maxDepth : Nat) (before after : Machine) : Prop :=
  ∃ entered count, before.step maxDepth = .next entered ∧
    Steps maxDepth (before.callers.length + 1) count entered after ∧
    after.callers.length = before.callers.length

/-- A call of a routine does to the machine what its caller may rely on. -/
structure RespectsFrame (before after : Machine) (argumentCount : Nat) (info : RoutineInfo) :
    Prop where
  /-- the caller goes on behind the call, with its variables as they were -/
  frame : after.frame = { before.frame with offset := before.frame.offset + 1 }
  callers : after.callers = before.callers
  /-- the results, of which a procedure has none, stand in the place of the arguments -/
  stack : ∃ (below : Stack) (arguments results : List Value),
    before.stack = below.pushMany arguments ∧ arguments.length = argumentCount ∧
    after.stack = below.pushMany results ∧ results.length = info.returns.length ∧
    (info.kind = .procedure → results = [])
  saved : after.scene.board.saved = before.scene.board.saved
  marks : after.scene.log.marks = before.scene.log.marks
  /-- functions leave the board as it was, and what they log is undone -/
  pure : info.kind = .function → before.scene.Restores after.scene

theorem Steps.count_le {more : Nat} (steps : Steps limit floor count machine after)
    (left : after.callers.length < floor) (others : Steps limit floor more machine last) :
    more ≤ count := by
  rcases Nat.lt_or_ge count more with longer | enough
  · obtain ⟨extra, rfl⟩ := Nat.exists_eq_add_of_lt longer
    rw [Nat.add_assoc] at others
    obtain ⟨middle, early, late⟩ := others.take
    cases steps.unique early
    cases late with
    | head deep _ _ => exact absurd left (Nat.not_lt_of_le deep)
  · exact enough

/-- A machine that follows an evaluation, and leaves the level of its call, has come to the
end of the evaluation. -/
theorem Follows.of_left {α : Type} {fuel : Nat} {eval : Evaluation α}
    {ends : α → Machine → Prop} (follows : Follows limit floor fuel machine eval ends)
    (steps : Steps limit floor count machine after) (left : after.callers.length < floor)
    (enough : count < fuel) (leaves : ∀ value last, ends value last → last.callers.length < floor) :
    ∃ value, eval.run.run machine.scene = some (.ok value, after.scene) ∧
      ends value after := by
  unfold Follows at follows
  split at follows
  next exhausted =>
    obtain ⟨last, others⟩ := follows
    exact absurd enough (Nat.not_lt_of_le (steps.count_le left others))
  next value scene finished =>
    obtain ⟨more, last, others, rfl, ending⟩ := follows
    have sameCount : more = count :=
      Nat.le_antisymm (steps.count_le left others) (others.count_le (leaves _ _ ending) steps)
    subst sameCount
    cases steps.unique others
    exact ⟨value, finished, ending⟩
  next cause scene failed =>
    obtain ⟨more, last, error, others, deep, fails, -⟩ := follows
    obtain ⟨rest, rfl⟩ := Nat.exists_eq_add_of_le (steps.count_le left others)
    obtain ⟨middle, early, late⟩ := steps.take
    cases others.unique early
    cases late with
    | refl => exact absurd left (Nat.not_lt_of_le deep)
    | head _ stepped _ =>
      rw [fails] at stepped
      cases stepped

section Calls

variable {before entered : Machine} {name : String} {count : Nat} {home : CompiledModule}
  {routine : Routine}

theorem callee?_eq_some (calls : before.callee? = some (name, count, home, routine)) :
    before.frame.home.exported? name = some (home, routine) ∧
      ∃ span, before.frame.routine.code[before.frame.offset]? = some (.call name count, span) := by
  unfold callee? at calls
  split at calls
  next found =>
    obtain ⟨_, exported, same⟩ := Option.map_eq_some_iff.mp calls
    cases same
    exact ⟨exported, _, found⟩
  next => cases calls

theorem step_of_callee? (calls : before.callee? = some (name, count, home, routine))
    (stepped : before.step limit = .next entered) : routine.parameters.length = count ∧
      ∃ args below, before.stack.popMany? count = some (args, below) ∧
        entered = { before.advance with stack := below }.enterRoutine home routine args := by
  obtain ⟨exported, span, found⟩ := callee?_eq_some calls
  have called : before.step limit = before.advance.callRoutine limit name count home
      routine := by
    simp only [step, found, execute, call, advance, exported]
  rw [called, callRoutine] at stepped
  split at stepped
  · cases stepped
  next arity =>
    split at stepped
    · cases stepped
    · unfold withValues at stepped
      split at stepped
      next args below popped =>
        cases stepped
        exact ⟨not_ne_iff.mp arity, args, below, popped, rfl⟩
      next => cases stepped

end Calls

end Machine

theorem Stack.pushMany_of_popMany? {stack below : Stack} {values : List Value}
    (popped : stack.popMany? count = some (values, below)) :
    stack = below.pushMany values ∧ values.length = count := by
  unfold popMany? at popped
  split at popped
  · cases popped
  next enough =>
    have taken : count ≤ stack.items.length := stack.height_eq ▸ Nat.le_of_not_lt enough
    cases popped
    refine ⟨Stack.ext_items ?_, ?_⟩
    · rw [items_pushMany, reverse_reverse, take_append_drop]
    · rw [length_reverse, length_take_of_le taken]

/-! ## Programs -/

/-- A call of a routine of a sound program that comes back respects the frame of its
caller. -/
theorem Machine.ComesBack.respectsFrame {site : Site} {name : String}
    (comesBack : ComesBack limit before after)
    (calls : before.callee? = some (name, count, home, routine)) (sound : site.Sound)
    (mods : ModulesSound site.modules) (mem : defn ∈ site.program.definitions)
    (realizes : Realizes site defn home routine) : before.RespectsFrame after count defn.info := by
  obtain ⟨entered, steps, stepped, inside, level⟩ := comesBack
  obtain ⟨arity, args, below, popped, rfl⟩ := step_of_callee? calls stepped
  obtain ⟨sameStack, counted⟩ := Stack.pushMany_of_popMany? popped
  obtain ⟨_, _, _, _, _, _, _, _, _, sameParameters, _⟩ := realizes.compiled.parts
  set caller : Machine := { before.advance with stack := below } with isCaller
  -- the call is followed with any fuel, so take more than it needs
  let ctx : Context :=
    { site, routine := "", maxDepth := limit, depth := caller.depth
      call := Context.evalCall limit (steps + 1) (caller.depth + 1), fuel := 0 }
  have followed : ctx.CallsFollowed (steps + 1) := Context.callsFollowed_evalCall rfl
  have follows := followed site defn home routine args caller realizes
    (counted.trans (arity.symm.trans (congrArg List.length sameParameters))) rfl
  have atLevel : caller.callers.length = before.callers.length := rfl
  obtain ⟨values, evaluated, valueCount, isAfter⟩ := follows.of_left inside
    (by rw [level]; exact Nat.lt_succ_self _) (Nat.lt_succ_self _) (by
      rintro values last ⟨-, isLast⟩
      rw [isLast]
      exact Nat.lt_succ_self _)
  have kept := Context.meets_evalCall limit (steps + 1) (caller.depth + 1) sound mods mem
    args before.scene
  rw [show (Context.evalCall limit (steps + 1) (caller.depth + 1) site defn
    args).run.run before.scene = some (.ok values, after.scene) from evaluated] at kept
  obtain ⟨-, grows, restores⟩ := kept
  have noneOfProcedure : defn.info.kind = .procedure → values = [] := by
    intro isProcedure
    rw [Definition.shape_of_procedure isProcedure] at valueCount
    exact eq_nil_of_length_eq_zero valueCount
  rw [isAfter]
  exact ⟨rfl, rfl, ⟨below, args, values, sameStack, counted, rfl,
    valueCount.trans defn.shape_results, noneOfProcedure⟩, grows.saved, grows.marks,
    restores⟩

/-- A program that is accepted is compiled, and in all its runs, every call of a routine that
comes back respects the frame of its caller: the routine is the code of the definition that
its name stands for in the program of the caller, and it gives the number of values that the
checks have counted for that definition. -/
theorem calls_respect_frames {settings : Library.Settings} {file source : String} {site : Site}
    (accepted : Site.ofEntry? settings file source = some site) :
    ∃ compiled main, Library.fresh (Library.loadEntry settings file source) = .ok compiled ∧
      compiled.routines.get? "Main" = some main ∧
      ∀ {maxDepth steps argumentCount : Nat} {scene : Scene} {before after : Machine}
        {name : String} {home : CompiledModule} {routine : Routine},
        Machine.Steps maxDepth 0 steps (Machine.start compiled main scene) before →
        before.callee? = some (name, argumentCount, home, routine) →
        Machine.ComesBack maxDepth before after →
        ∃ here other definition, site.Holds here ∧ here.BuiltAs before.frame.home ∧
          here.routine? name = some (other, definition) ∧ definition.CompilesTo routine ∧
          before.RespectsFrame after argumentCount definition.info := by
  obtain ⟨-, sound, modulesSound, -⟩ := Site.sound_of_ofEntry? accepted
  obtain ⟨compiled, -, main, loaded, built, -, -, isRoutine, -⟩ :=
    Site.compiled_of_ofEntry? accepted
  refine ⟨compiled, main, loaded, isRoutine, ?_⟩
  intro maxDepth steps argumentCount scene before after name home routine reached calls comesBack
  -- every module that a run gets to is the compiled form of the program or of one of its modules
  have homes : ∀ home ∈ before.homes, ∃ here, site.Holds here ∧ here.BuiltAs home := by
    refine reached.homes ?_ (fun home member => ?_)
    · rintro home name other routine ⟨here, holds, hereBuilt⟩ exported
      obtain ⟨there, _, -, thereHolds, thereBuilt, -⟩ :=
        holds.exported? sound modulesSound hereBuilt exported
      exact ⟨there, thereHolds, thereBuilt⟩
    · cases List.mem_singleton.mp member
      exact ⟨site, .inl rfl, built⟩
  obtain ⟨here, holds, hereBuilt⟩ := homes before.frame.home List.mem_cons_self
  obtain ⟨exported, -⟩ := Machine.callee?_eq_some calls
  obtain ⟨other, definition, known, otherHolds, otherBuilt, compiles⟩ :=
    holds.exported? sound modulesSound hereBuilt exported
  obtain ⟨hereSound, hereModules⟩ := holds.sound sound modulesSound
  obtain ⟨otherSound, otherModules, member, -⟩ := hereSound.routine? hereModules known
  exact ⟨here, other, definition, holds, hereBuilt, known, compiles,
    comesBack.respectsFrame calls otherSound otherModules member
      (otherBuilt.realizes otherSound otherModules member compiles)⟩

namespace Machine

variable {machine : Machine}

def after? (maxDepth floor : Nat) : Nat → Machine → Option Machine
  | 0, machine => some machine
  | count + 1, machine =>
      if floor ≤ machine.callers.length then
        match machine.step maxDepth with
        | .next next => next.after? maxDepth floor count
        | _ => none
      else none

theorem Steps.of_after? {floor : Nat} (reached : after? limit floor count machine = some last) :
    Steps limit floor count machine last := by
  induction count generalizing machine with
  | zero =>
    cases reached
    exact .refl _
  | succ count ih =>
    rw [after?] at reached
    split at reached
    next deep =>
      split at reached
      next next stepped => exact .head deep stepped (ih reached)
      next => cases reached
    next => cases reached

def returningCall? (maxDepth count inside : Nat) (machine : Machine) :
    Option (Machine × Machine) := do
  let before ← machine.after? maxDepth 0 count
  match before.step maxDepth with
  | .next entered =>
      let after ← entered.after? maxDepth (before.callers.length + 1) inside
      if after.callers.length = before.callers.length then some (before, after) else none
  | _ => none

theorem comesBack_of_returningCall? {inside : Nat}
    (returns : machine.returningCall? limit count inside = some (before, after)) :
    Steps limit 0 count machine before ∧ ComesBack limit before after := by
  obtain ⟨start, reached, returns⟩ := Option.bind_eq_some_iff.mp returns
  split at returns
  next entered stepped =>
    obtain ⟨last, left, returns⟩ := Option.bind_eq_some_iff.mp returns
    split at returns
    next level =>
      cases returns
      exact ⟨.of_after? reached, entered, inside, stepped, .of_after? left, level⟩
    next => cases returns
  next => cases returns

end Machine

theorem walk_call_respects_frame :
    ∃ (site : Site) (compiled home : CompiledModule) (main routine : Routine)
        (definition : Definition) (before after : Machine),
      Site.ofEntry? walkSettings "main.gbs" walkSource = some site ∧
      Library.fresh (Library.loadEntry walkSettings "main.gbs" walkSource) = .ok compiled ∧
      compiled.routines.get? "Main" = some main ∧
      Machine.Steps 2 0 3 (.start compiled main (.ofBoard (.blank 3 1))) before ∧
      before.callee? = some ("east", 1, home, routine) ∧ Machine.ComesBack 2 before after ∧
      definition.CompilesTo routine ∧ before.RespectsFrame after 1 definition.info := by
  obtain ⟨site, accepted⟩ := walk_accepted
  obtain ⟨compiled, main, loaded, isMain, respects⟩ := calls_respect_frames accepted
  have called : (do
      let compiled ← (Library.fresh (Library.loadEntry walkSettings "main.gbs"
        walkSource)).toOption
      let main ← compiled.routines.get? "Main"
      let (before, _) ← (Machine.start compiled main (.ofBoard (.blank 3 1))).returningCall? 2 3 36
      let (name, count, _) ← before.callee?
      some (name, count)) = some ("east", 1) := by decide +kernel
  rw [loaded] at called
  simp only [Except.toOption, Option.bind_eq_bind, Option.bind_some, isMain,
    Option.bind_eq_some_iff] at called
  obtain ⟨⟨before, after⟩, returns, ⟨_, _, home, routine⟩, callee, same⟩ := called
  cases same
  obtain ⟨reached, comesBack⟩ := Machine.comesBack_of_returningCall? returns
  obtain ⟨_, _, definition, -, -, -, compiles, respected⟩ := respects reached callee comesBack
  exact ⟨site, compiled, home, main, routine, definition, before, after, accepted, loaded, isMain,
    reached, callee, comesBack, compiles, respected⟩

end StoneBoard
