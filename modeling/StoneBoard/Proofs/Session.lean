import StoneBoard.Proofs.Instructions
import Mathlib.Logic.Relation

/-!
# Sessions

One machine can run program after program: board and log go on from each run to the next,
also when a run has failed.  Whatever the programs do, the log explains the board at every
moment.

The programs need not come from the compiler.  Marks and snapshots stay in step because one
instruction opens both and one closes both, and a builtin procedure that fails leaves both
the board and the log alone.
-/

namespace StoneBoard

variable {index : Nat} {event : BoardEvent}
variable {initial : Board} {before after : Scene} {budget : Nat} {ending : Except Error Bindings}

/-! ## What one instruction does to the scene -/

namespace Scene

/-- The changes of a scene that single instructions make. -/
inductive Change : Scene → Scene → Prop
  | none (scene : Scene) : Change scene scene
  | record {scene : Scene} {action : Action} {arguments : List Value} {board : Board}
      (performed : action.perform arguments scene.board = .ok board) (routine : String) :
      Change scene
        ⟨board, scene.log.record routine (Deed.text ⟨action, arguments⟩) board.head⟩
  | enter (scene : Scene) : Change scene ⟨scene.board.save, scene.log.openMark⟩
  | leave (scene : Scene) : Change scene ⟨scene.board.restore, scene.log.closeMark⟩

def Retains (before after : Scene) : Prop :=
  ∀ (index : Nat) (event : BoardEvent), before.log.events[index]? = some event →
    ∃ kept, after.log.events[index]? = some kept ∧ (kept = event ∨ kept = event.undo)

structure Recording (before after : Scene) (event : BoardEvent) : Prop where
  deed : ∃ deed, Deed.ofText? event.action = some deed ∧
    deed.redo? before.board = some after.board
  head : event.head = after.board.head
  standing : event.undone = false

theorem Retains.refl (scene : Scene) : Retains scene scene :=
  fun _ event found => ⟨event, found, .inl rfl⟩

theorem Retains.trans {first second third : Scene} (early : Retains first second)
    (late : Retains second third) : Retains first third := by
  intro index event found
  obtain ⟨between, foundBetween, sameOrUndone⟩ := early index event found
  obtain ⟨kept, foundLast, stillSameOrUndone⟩ := late index between foundBetween
  refine ⟨kept, foundLast, ?_⟩
  rcases sameOrUndone with rfl | rfl
  · exact stillSameOrUndone
  · rcases stillSameOrUndone with rfl | rfl
    · exact .inr rfl
    · exact .inr rfl

theorem getElem?_closeMark {log : RunLog} (found : log.events[index]? = some event) :
    ∃ kept, log.closeMark.events[index]? = some kept ∧ (kept = event ∨ kept = event.undo) := by
  unfold RunLog.closeMark
  split
  · exact ⟨event, found, .inl rfl⟩
  next mark earlier _ =>
    simp only [RunLog.getElem?_undoFrom, found, Option.map_some, Option.some.injEq]
    refine ⟨_, rfl, ?_⟩
    split
    · exact .inr rfl
    · exact .inl rfl

theorem size_closeMark (log : RunLog) : log.closeMark.events.size = log.events.size := by
  unfold RunLog.closeMark
  split
  · rfl
  · simp

variable {before after : Scene}

theorem Change.retains (change : Change before after) : Retains before after := by
  cases change with
  | none => exact .refl before
  | record performed routine =>
    intro index event found
    refine ⟨event, ?_, .inl rfl⟩
    have inside : index < before.log.events.size := by
      by_contra outside
      simp [Array.getElem?_eq_none (Nat.le_of_not_lt outside)] at found
    simp only [RunLog.record, Array.getElem?_push]
    simp [Nat.ne_of_lt inside, found]
  | enter => exact .refl before
  | leave => exact fun index event found => getElem?_closeMark found

theorem Change.origin (change : Change before after)
    (found : after.log.events[index]? = some event) :
    (∃ old, before.log.events[index]? = some old ∧ (event = old ∨ event = old.undo)) ∨
      index = before.log.size ∧ Recording before after event := by
  cases change with
  | none => exact .inl ⟨event, found, .inl rfl⟩
  | record performed routine =>
    simp only [RunLog.record, Array.getElem?_push] at found
    split at found
    next last =>
      cases found
      have performs := Action.performs_of_perform performed
      refine .inr ⟨last, ⟨_, Deed.ofText?_text performs.mem_all, ?_⟩, rfl, rfl⟩
      simp [Deed.redo?, performed, Except.toOption]
    next => exact .inl ⟨event, found, .inl rfl⟩
  | enter => exact .inl ⟨event, found, .inl rfl⟩
  | leave =>
    left
    cases there : before.log.events[index]? with
    | none =>
      have outside : before.log.events.size ≤ index := by simpa using there
      simp [size_closeMark, outside] at found
    | some old =>
      obtain ⟨kept, foundKept, sameOrUndone⟩ := getElem?_closeMark there
      rw [foundKept] at found
      cases found
      exact ⟨old, rfl, sameOrUndone⟩

end Scene

namespace Machine

def Outcome.scene : Outcome → Scene
  | .next machine => machine.scene
  | .done _ scene => scene
  | .fault _ scene => scene

/-- Whatever the code, a step changes the scene in one of four ways. -/
theorem step_change (limit : Nat) (machine : Machine) :
    Scene.Change machine.scene (machine.step limit).scene := by
  rcases step_does limit machine with ⟨instr, span, -, does⟩ | ⟨cause, -, fails⟩
  · generalize machine.step limit = outcome at does
    cases does with
    | goes | calls | returns | ends | fails => exact .none _
    | records _ _ performed => exact .record performed _
    | saves => exact .enter _
    | restores => exact .leave _
  · rw [fails]
    exact .none _

end Machine

/-- A step in one of the four ways keeps the log an explanation of the board. -/
theorem Explains.change (explains : Explains initial before) (change : Scene.Change before after) :
    Explains initial after := by
  cases change with
  | none => exact explains
  | record performed routine => exact explains.record performed routine
  | enter => exact explains.enter
  | leave => exact explains.leave

/-! ## Sessions -/

/-- A machine between two runs, or in the middle of one. -/
inductive Moment where
  | idle (scene : Scene)
  | running (machine : Machine)

namespace Moment

def scene : Moment → Scene
  | idle scene => scene
  | running machine => machine.scene

/-- The next moment.  Any program may be started when no other is running, and the board
and the log stay as a program that ends or fails leaves them. -/
inductive Next (maxDepth : Nat) : Moment → Moment → Prop
  | start {program : CompiledModule} {main : Routine} (scene : Scene)
      (found : program.routines.get? "Main" = some main) :
      Next maxDepth (.idle scene) (.running (.start program main scene))
  | step {machine after : Machine} (stepped : machine.step maxDepth = .next after) :
      Next maxDepth (.running machine) (.running after)
  | finish {machine : Machine} {result : Bindings} {scene : Scene}
      (finished : machine.step maxDepth = .done result scene) :
      Next maxDepth (.running machine) (.idle scene)
  | fail {machine : Machine} {error : Error} {scene : Scene}
      (failed : machine.step maxDepth = .fault error scene) :
      Next maxDepth (.running machine) (.idle scene)

abbrev Later (maxDepth : Nat) : Moment → Moment → Prop :=
  Relation.ReflTransGen (Next maxDepth)

variable {limit : Nat} {before after : Moment}

theorem Next.change (next : Next limit before after) : Scene.Change before.scene after.scene := by
  cases next with
  | start scene found => exact .none scene
  | @step machine after stepped =>
    have change := machine.step_change limit
    rwa [stepped] at change
  | @finish machine result scene finished =>
    have change := machine.step_change limit
    rwa [finished] at change
  | @fail machine error scene failed =>
    have change := machine.step_change limit
    rwa [failed] at change

theorem Later.explains (later : Later limit before after)
    (explains : Explains initial before.scene) : Explains initial after.scene := by
  induction later with
  | refl => exact explains
  | tail _ next ih => exact ih.change next.change

theorem Later.retains (later : Later limit before after) : before.scene.Retains after.scene := by
  induction later with
  | refl => exact .refl _
  | tail _ next ih => exact ih.trans next.change.retains

/-- Between two neighbouring moments on the way from `first` to `last`, an event was
recorded at a place of the log. -/
def RecordedBetween (maxDepth : Nat) (first last : Moment) (index : Nat)
    (event : BoardEvent) : Prop :=
  ∃ before after : Moment, Later maxDepth first before ∧ Next maxDepth before after ∧
    Later maxDepth after last ∧ before.scene.log.size = index ∧
    after.scene.log.events[index]? = some { event with undone := false } ∧
    before.scene.Recording after.scene { event with undone := false }

theorem Later.recorded (later : Later limit before after) (unwritten : before.scene.log = .empty)
    (found : after.scene.log.events[index]? = some event) :
    RecordedBetween limit before after index event := by
  induction later generalizing event with
  | refl => simp [unwritten, RunLog.empty] at found
  | @tail middle last reached next ih =>
    -- the event was there before, perhaps not yet undone, or this step records it
    rcases next.change.origin found with ⟨old, foundOld, sameOrUndone⟩ | ⟨place, recording⟩
    · have sameFresh : { event with undone := false } = { old with undone := false } := by
        rcases sameOrUndone with rfl | rfl <;> rfl
      obtain ⟨earlier, recordedAt, reachedEarlier, recordingStep, reachedMiddle, rest⟩ :=
        ih foundOld
      refine ⟨earlier, recordedAt, reachedEarlier, recordingStep, reachedMiddle.tail next, ?_⟩
      rw [sameFresh]
      exact rest
    · have fresh : { event with undone := false } = event := by
        rw [← recording.standing]
      refine ⟨middle, last, reached, next, .refl, place.symm, ?_⟩
      rw [fresh]
      exact ⟨found, recording⟩

theorem later_of_run {machine : Machine} {scene : Scene}
    (ran : machine.run limit budget = some (ending, scene)) :
    Later limit (.running machine) (.idle scene) := by
  induction budget generalizing machine with
  | zero => simp [Machine.run] at ran
  | succ budget ih =>
    simp only [Machine.run] at ran
    split at ran
    next after stepped => exact .head (.step stepped) (ih ran)
    next result final finished =>
      cases ran
      exact .single (.finish finished)
    next error final failed =>
      cases ran
      exact .single (.fail failed)

end Moment

theorem CompiledModule.later_of_run {prog : CompiledModule} {limit : Nat}
    (ran : prog.run limit budget before = some (ending, after)) :
    Moment.Later limit (.idle before) (.idle after) := by
  unfold CompiledModule.run at ran
  split at ran
  next main found => exact .head (.start before found) (Moment.later_of_run ran)
  next => cases ran; exact .refl

/-- At every moment of a session on a board without snapshots, the log explains the board.
Replaying what stands of the log on the first board succeeds and gives the current stones
and head.  Every event has its place in the log for its number, and was recorded by one
step that made the change and left the head where the event says.  At every later moment
each event is still there, unchanged but for a mark of being undone that comes and stays. -/
theorem log_explains_board {maxDepth : Nat} {board : Board} {moment : Moment}
    (unsaved : board.saved = [])
    (reached : Moment.Later maxDepth (.idle (.ofBoard board)) moment) :
    (∃ replayed, RunLog.replay board moment.scene.log.effective = some replayed ∧
      replayed.cells = moment.scene.board.cells ∧
      replayed.head = moment.scene.board.head) ∧
    (∀ (index : Nat) (event : BoardEvent), moment.scene.log.events[index]? = some event →
      event.id = index ∧
      Moment.RecordedBetween maxDepth (.idle (.ofBoard board)) moment index event) ∧
    (∀ later, Moment.Later maxDepth moment later → moment.scene.Retains later.scene) := by
  have explains := reached.explains (.ofBoard unsaved)
  refine ⟨⟨_, explains.current, rfl, rfl⟩, ?_, ?_⟩
  · intro index event found
    exact ⟨explains.ids found, reached.recorded rfl found⟩
  · intro later laterReached
    exact laterReached.retains

def unbalancedProgram : CompiledModule where
  qualifier := ""
  file := "main.gbs"
  routines := [("Main", {
    name := "Main"
    kind := .procedure
    parameters := []
    code := #[
      (.pushConstant (.color .red), .nowhere), (.call "PutStone" 1, .nowhere),
      (.enter, .nowhere),
      (.pushConstant (.direction .east), .nowhere), (.call "Move" 1, .nowhere),
      (.leave, .nowhere), (.leave, .nowhere),
      (.pushConstant (.color .blue), .nowhere), (.call "TakeStone" 1, .nowhere)] })]
  links := []

theorem log_explains_unbalanced_run :
    (Board.blank 2 1).saved = [] ∧
    ∃ error scene, unbalancedProgram.run 1 9 (.ofBoard (.blank 2 1)) =
        some (.error error, scene) ∧ scene.log.size = 2 ∧
      ∃ replayed, RunLog.replay (.blank 2 1) scene.log.effective = some replayed ∧
        replayed.cells = scene.board.cells ∧ replayed.head = scene.board.head := by
  have ending : (unbalancedProgram.run 1 9 (.ofBoard (.blank 2 1))).map
      (fun ending => (ending.1.isOk, ending.2.log.size)) = some (false, 2) := by decide +kernel
  obtain ⟨⟨outcome, scene⟩, ran, facts⟩ := Option.map_eq_some_iff.mp ending
  simp only [Prod.mk.injEq] at facts
  cases outcome with
  | ok result => simp [Except.isOk, Except.toBool] at facts
  | error error =>
      exact ⟨rfl, error, scene, ran, facts.2,
        (log_explains_board rfl (CompiledModule.later_of_run ran)).1⟩

end StoneBoard
