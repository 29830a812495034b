import StoneBoard.Proofs.Constancy
import StoneBoard.Proofs.Recasting

/-!
# Scenes that earlier runs have left

A run that fails inside of functions leaves saved states on the board and open marks in the log.
A later run never comes to them: it goes back to states that it has saved itself only.  So it does
the same as on a new machine, and its log goes on behind the earlier one.
-/

namespace StoneBoard

open Library List

/-! ## What lies below a run -/

def Board.above (earlier : List Snapshot) (board : Board) : Board :=
  { board with saved := board.saved ++ earlier }

def BoardEvent.after (earlier : Nat) (event : BoardEvent) : BoardEvent :=
  { event with id := earlier + event.id }

def RunLog.after (earlier log : RunLog) : RunLog where
  events := earlier.events ++ log.events.map (BoardEvent.after earlier.size)
  marks := log.marks.map (earlier.size + ·) ++ earlier.marks

namespace Board

variable (earlier : List Snapshot) (board : Board)

theorem putStone_above (color : Color) :
    (board.above earlier).putStone color = (board.putStone color).map (above earlier) := by
  rw [putStone, putStone, show (board.above earlier).stones color = board.stones color from rfl]
  split <;> rfl

theorem takeStone_above (color : Color) :
    (board.above earlier).takeStone color = (board.takeStone color).map (above earlier) := by
  rw [takeStone, takeStone, show (board.above earlier).stones color = board.stones color from rfl]
  cases board.stones color <;> rfl

theorem moveHead_above (dir : Direction) :
    (board.above earlier).moveHead dir = (board.moveHead dir).map (above earlier) := by
  rw [moveHead, moveHead, show (board.above earlier).neighbour? dir = board.neighbour? dir from rfl]
  cases board.neighbour? dir <;> rfl

/-- Builtin procedures do not look at what has been saved. -/
theorem perform_above (action : Action) (args : List Value) :
    action.perform args (board.above earlier) =
      (action.perform args board).map (above earlier) := by
  unfold Action.perform
  split
  next arg =>
    cases arg.asColor "PutStone" with
    | error => rfl
    | ok color =>
      simp only [bind, Except.bind, putStone_above]
      cases board.putStone color <;> rfl
  next arg =>
    cases arg.asColor "TakeStone" with
    | error => rfl
    | ok color =>
      simp only [bind, Except.bind, takeStone_above]
      cases board.takeStone color <;> rfl
  next arg =>
    cases arg.asDirection "Move" with
    | error => rfl
    | ok dir =>
      simp only [bind, Except.bind, moveHead_above]
      cases board.moveHead dir <;> rfl
  · rfl
  · rfl
  · rfl

theorem run_above (builtin : Builtin) (args : List Value) : builtin.run args (board.above earlier) =
      (builtin.run args board).map fun after => (after.1.above earlier, after.2) := by
  have sameValue (op : StoneBoard.Operation) :
      op.apply args (board.above earlier) = op.apply args board := by
    unfold StoneBoard.Operation.apply
    rfl
  cases builtin with
  | action act =>
    simp only [Builtin.run, perform_above]
    cases act.perform args board <;> rfl
  | operation op =>
    simp only [Builtin.run, sameValue]
    cases op.apply args board <;> rfl
  | variant op ty =>
    simp only [Builtin.run, sameValue]
    split
    · rfl
    · cases op.apply args board <;> rfl

theorem restore_above (some : board.saved ≠ []) :
    board.restore.above earlier = (board.above earlier).restore := by
  obtain ⟨width, height, cells, head, saved⟩ := board
  cases saved with
  | nil => exact absurd rfl some
  | cons => rfl

end Board

namespace RunLog

variable (earlier log : RunLog)

theorem record_after (routine action : String) (head : Place) :
    earlier.after (log.record routine action head) =
      (earlier.after log).record routine action head := by
  simp [after, record, BoardEvent.after, size]

theorem openMark_after : earlier.after log.openMark = (earlier.after log).openMark := by
  simp [after, openMark, size]

theorem closeMark_after (some : log.marks ≠ []) :
    earlier.after log.closeMark = (earlier.after log).closeMark := by
  obtain ⟨events, marks⟩ := log
  cases marks with
  | nil => exact absurd rfl some
  | cons mark marks =>
    simp only [after, closeMark, map_cons, cons_append, RunLog.mk.injEq, and_true]
    apply Array.ext_getElem?
    intro pos
    rw [getElem?_undoFrom, Array.getElem?_append, Array.getElem?_append]
    split
    next early =>
      have before : ¬ earlier.size + mark ≤ pos := by
        have : earlier.events.size = earlier.size := rfl
        omega
      simp [before]
    next late =>
      have sameEvents : earlier.size + mark ≤ pos ↔ mark ≤ pos - earlier.events.size := by
        have : earlier.events.size = earlier.size := rfl
        omega
      rw [Array.getElem?_map, Array.getElem?_map, getElem?_undoFrom, Option.map_map, Option.map_map]
      simp only [sameEvents]
      congr 1
      funext event
      simp only [Function.comp]
      split <;> rfl

end RunLog

/-- The surroundings in which earlier runs have left a scene. -/
def Recast.onto (past : Scene) : Recast where
  home := id
  board := Board.above past.board.saved
  log := past.log.after
  qualifier _ := rfl
  file _ := rfl
  head _ := rfl
  run builtin arguments before := before.run_above past.board.saved builtin arguments
  save _ := rfl
  record := past.log.record_after
  openMark := past.log.openMark_after

def Scene.renewed (scene : Scene) : Scene := .ofBoard { scene.board with saved := [] }

theorem Scene.recast_renewed (scene : Scene) : scene.renewed.recast (.onto scene) = scene := by
  obtain ⟨board, events, marks⟩ := scene
  simp [renewed, ofBoard, recast, Recast.onto, Board.above, RunLog.after, RunLog.empty]

/-! ## Functions that are under way -/

/-- Only the code of a function goes back to a saved state, in the last instruction but one, after
it has saved one in its first instruction. -/
structure Routine.Bracketed (routine : Routine) : Prop where
  plain : ∀ {offset instruction span}, routine.code[offset]? = some (instruction, span) →
    instruction.isPlain = true → routine.kind = .function →
      0 < offset ∧ offset + 1 < routine.code.size
  leave : ∀ {offset span}, routine.code[offset]? = some (.leave, span) →
    routine.kind = .function ∧ 0 < offset ∧ offset + 2 = routine.code.size

theorem Definition.CompilesTo.bracketed {defn : Definition} {routine : Routine}
    (compiled : defn.CompilesTo routine) (careful : defn.Careful)
    (named : defn.Named) : routine.Bracketed := by
  obtain ⟨code, span, returns, isCode, isReturn, gentle, sameKind⟩ := compiled.inner careful named
  have isPlain : ∀ line ∈ code, line.1.isPlain = true := fun line mem => (gentle line mem).1
  have first : Instruction.enter.isPlain = false := rfl
  have leaving : Instruction.leave.isPlain = false := rfl
  have last : returns.isPlain = false ∧ returns ≠ .leave := by
    cases returns <;> cases isReturn <;> simp
  have sameSize := congrArg List.length isCode
  by_cases isFunction : routine.kind = .function
  · rw [← sameKind, if_pos isFunction, if_pos isFunction] at isCode sameSize
    simp only [length_append, length_singleton, Array.length_toList] at sameSize
    refine ⟨fun found plain _ => ?_, fun found => ?_⟩
    all_goals
      rw [← Array.getElem?_toList, isCode] at found
      grind
  · rw [← sameKind, if_neg isFunction, if_neg isFunction] at isCode
    refine ⟨fun _ _ named => absurd named isFunction, fun found => ?_⟩
    rw [← Array.getElem?_toList, isCode] at found
    grind

theorem Site.Runs.bracketed {opts : Settings} {file src : String} {site : Site}
    (accepted : ofEntry? opts file src = some site) {call : CompiledModule × Routine}
    (runs : site.Runs call) : call.2.Bracketed := by
  obtain ⟨-, sound, modsSound, -⟩ := sound_of_ofEntry? accepted
  obtain ⟨here, defn, holds, -, mem, compiles⟩ := runs
  obtain ⟨hereSound, -⟩ := holds.sound sound modsSound
  obtain ⟨-, named⟩ := hereSound.regular defn mem
  have careful := careful_of_ofEntry? accepted holds defn mem
  exact compiles.bracketed careful named

def Frame.isOpen (frame : Frame) : Bool :=
  0 < frame.offset && frame.routine.kind == .function && frame.offset + 1 < frame.routine.code.size

theorem Board.length_saved_restore (board : Board) :
    board.restore.saved.length = board.saved.length - 1 := by
  obtain ⟨width, height, cells, head, saved⟩ := board
  cases saved <;> rfl

theorem RunLog.length_marks_closeMark (log : RunLog) :
    log.closeMark.marks.length = log.marks.length - 1 := by
  obtain ⟨events, marks⟩ := log
  cases marks <;> rfl

namespace Machine

variable {span : Span}

/-- All functions under way can go back to a state that has been saved since the run began. -/
structure Balanced (machine : Machine) : Prop where
  saved : machine.frames.countP Frame.isOpen ≤ machine.scene.board.saved.length
  marks : machine.frames.countP Frame.isOpen ≤ machine.scene.log.marks.length

variable {machine next : Machine} {limit : Nat}

theorem isOpen_of_plain (bracketed : machine.frame.routine.Bracketed) {instr : Instruction}
    (found : machine.frame.routine.code[machine.frame.offset]? = some (instr, span))
    (plain : instr.isPlain = true) {frame : Frame}
    (same : frame.routine = machine.frame.routine) (isOpen : frame.isOpen = true) :
    machine.frame.isOpen = true := by
  simp only [Frame.isOpen, same, Bool.and_eq_true, beq_iff_eq, decide_eq_true_eq] at isOpen ⊢
  obtain ⟨⟨-, isFunction⟩, -⟩ := isOpen
  obtain ⟨entered, inside⟩ := bracketed.plain found plain isFunction
  exact ⟨⟨entered, isFunction⟩, inside⟩

theorem isOpen_of_leave (bracketed : machine.frame.routine.Bracketed)
    (found : machine.frame.routine.code[machine.frame.offset]? = some (.leave, span)) :
    machine.frame.isOpen = true ∧ machine.advance.frame.isOpen = false := by
  obtain ⟨isFunction, entered, isLast⟩ := bracketed.leave found
  have inside : machine.frame.offset + 1 < machine.frame.routine.code.size := by omega
  refine ⟨by simp [Frame.isOpen, isFunction, entered, inside], ?_⟩
  have outside : ¬ machine.frame.offset + 1 + 1 < machine.frame.routine.code.size := by omega
  simp [Frame.isOpen, advance, outside]

theorem Balanced.step (balanced : machine.Balanced) (bracketed : machine.frame.routine.Bracketed)
    (stepped : machine.step limit = .next next) : next.Balanced := by
  obtain ⟨instr, span, found, does⟩ := does_of_step stepped
  obtain ⟨saved, marks⟩ := balanced
  have atMost (frame : Frame) : (frame :: machine.callers).countP Frame.isOpen ≤
      machine.callers.countP Frame.isOpen + 1 := by
    rw [countP_cons]
    split <;> omega
  have callers : machine.callers.countP Frame.isOpen ≤ machine.frames.countP Frame.isOpen :=
    (sublist_cons_self _ _).countP_le
  -- a plain instruction opens nothing, as it stands in a function that is open already
  have stays (plain : instr.isPlain = true) (frame : Frame)
      (same : frame.routine = machine.frame.routine) :
      (frame :: machine.callers).countP Frame.isOpen ≤ machine.frames.countP Frame.isOpen := by
    by_cases isOpen : frame.isOpen = true
    · have wasOpen := isOpen_of_plain bracketed found plain same isOpen
      rw [frames, countP_cons_of_pos isOpen, countP_cons_of_pos wasOpen]
    · rwa [countP_cons_of_neg isOpen]
  cases does with
  | goes stack plain =>
    exact ⟨Nat.le_trans (stays plain _ rfl) saved, Nat.le_trans (stays plain _ rfl) marks⟩
  | records stack plain performed =>
    have grows := Scene.grows_record performed "" ""
    refine ⟨Nat.le_trans (stays plain _ rfl) ?_, Nat.le_trans (stays plain _ rfl) marks⟩
    exact Nat.le_trans saved (Nat.le_of_eq (congrArg List.length grows.saved).symm)
  | saves isEnter =>
    have oneMore := Nat.le_trans (atMost machine.advance.frame) (Nat.succ_le_succ callers)
    exact ⟨Nat.le_trans oneMore (Nat.succ_le_succ saved),
      Nat.le_trans oneMore (Nat.succ_le_succ marks)⟩
  | restores isLeave =>
    obtain ⟨wasOpen, isOver⟩ := isOpen_of_leave bracketed (isLeave ▸ found)
    rw [frames, countP_cons_of_pos wasOpen] at saved marks
    have oneLess : machine.advance.frames.countP Frame.isOpen =
        machine.callers.countP Frame.isOpen := countP_cons_of_neg (by simp [isOver])
    constructor
    · change machine.advance.frames.countP Frame.isOpen ≤ _
      rw [oneLess, Board.length_saved_restore]
      omega
    · change machine.advance.frames.countP Frame.isOpen ≤ _
      rw [oneLess, RunLog.length_marks_closeMark]
      omega
  | calls args stack isCall known =>
    have inCaller := stays (isCall ▸ rfl) machine.advance.frame rfl
    exact ⟨Nat.le_trans inCaller saved, Nat.le_trans inCaller marks⟩
  | returns stack isReturn waiting =>
    rw [waiting] at callers
    exact ⟨Nat.le_trans callers saved, Nat.le_trans callers marks⟩

variable (limit) in
/-- A balanced run does the same on a scene that earlier runs have left. -/
theorem Balanced.run_recast (past : Scene) (balanced : machine.Balanced)
    (bracketed : ∀ {steps later}, Steps limit 0 steps machine later →
      ∀ call ∈ later.calls, call.2.Bracketed) (budget : Nat) :
    (machine.recast (.onto past)).run limit budget =
      (machine.run limit budget).map fun ended => (ended.1, ended.2.recast (.onto past)) := by
  induction budget generalizing machine with
  | zero => rfl
  | succ budget ih =>
    have here : machine.frame.routine.Bracketed := bracketed (.refl _) _ mem_cons_self
    have same : (machine.recast (.onto past)).step limit =
        (machine.step limit).recast (.onto past) := by
      refine machine.step_recast limit (fun name _ _ _ => ?_) fun span isLeave => ?_
      · exact Option.map_id'.symm
      · have isOpen := (isOpen_of_leave here isLeave).1
        have some : 0 < machine.frames.countP Frame.isOpen :=
          List.countP_pos_iff.mpr ⟨_, mem_cons_self, isOpen⟩
        refine ⟨Board.restore_above _ _ ?_, RunLog.closeMark_after _ _ ?_⟩
        · exact ne_nil_of_length_pos (Nat.lt_of_lt_of_le some balanced.saved)
        · exact ne_nil_of_length_pos (Nat.lt_of_lt_of_le some balanced.marks)
    rw [run, run, same]
    cases stepped : machine.step limit with
    | next next =>
      refine ih (balanced.step here stepped) fun steps => ?_
      exact bracketed (.head (Nat.zero_le _) stepped steps)
    | done result scene => rfl
    | fault error scene => rfl

end Machine

/-- A machine can be used again.  Whatever earlier runs have left, a program that is accepted does
the same as on a new machine with the same stones and head: it ends or fails with the same result
and leaves the same stones and head, or it does not end either; its events follow those of the
earlier runs, none of which is changed. -/
theorem run_as_on_new_machine {settings : Settings} {file source : String} {site : Site}
    (accepted : Site.ofEntry? settings file source = some site) :
    ∃ compiled, fresh (loadEntry settings file source) = .ok compiled ∧
      ∀ (maxDepth budget : Nat) (scene : Scene),
        (compiled.run maxDepth budget scene = none ↔
          compiled.run maxDepth budget scene.renewed = none) ∧
        ∀ {ending : Except Error Bindings} {alone : Scene},
          compiled.run maxDepth budget scene.renewed = some (ending, alone) →
          ∃ after, compiled.run maxDepth budget scene = some (ending, after) ∧
            after.board.width = alone.board.width ∧ after.board.height = alone.board.height ∧
            after.board.cells = alone.board.cells ∧ after.board.head = alone.board.head ∧
            after.log.events.toList = scene.log.events.toList ++
              alone.log.events.toList.map fun event =>
                { event with id := scene.log.size + event.id } := by
  obtain ⟨compiled, main, loaded, isMain, -, runs⟩ := Site.runs_of_ofEntry? accepted
  refine ⟨compiled, loaded, fun maxDepth budget scene => ?_⟩
  have balanced : (Machine.start compiled main scene.renewed).Balanced :=
    ⟨Nat.zero_le _, Nat.zero_le _⟩
  have same := balanced.run_recast maxDepth scene
    (fun steps call member => (runs steps call member).bracketed accepted) budget
  rw [show (Machine.start compiled main scene.renewed).recast (.onto scene) =
    Machine.start compiled main (scene.renewed.recast (.onto scene)) from rfl,
    scene.recast_renewed] at same
  simp only [CompiledModule.run, isMain, same]
  refine ⟨Option.map_eq_none_iff, fun {ending alone} ended => ?_⟩
  rw [ended]
  refine ⟨_, rfl, rfl, rfl, rfl, rfl, ?_⟩
  simp only [Scene.recast, Recast.onto, RunLog.after, Array.toList_append, Array.toList_map]
  rfl

def hopSource : String :=
  "from Walk import (east)
   procedure Main() \x7b
     GoToOrigin()
     (a, b) := east(1)
     return (a, b)
   \x7d"

/-- On two cells, a walk over two fails in a function and leaves a saved state; a hop then ends as
on a new machine, and its three events follow the four of the walk. -/
theorem hop_after_failed_walk :
    ∃ (site : Site) (walk hop : CompiledModule) (error : Error) (result : Bindings)
        (left alone after : Scene),
      Site.ofEntry? walkSettings "main.gbs" hopSource = some site ∧
      fresh (loadEntry walkSettings "main.gbs" walkSource) = .ok walk ∧
      fresh (loadEntry walkSettings "main.gbs" hopSource) = .ok hop ∧
      walk.run 2 99 (.ofBoard (.blank 2 1)) = some (.error error, left) ∧
      left.board.saved.length = 1 ∧ left.log.size = 4 ∧
      hop.run 2 99 left.renewed = some (.ok result, alone) ∧ alone.log.size = 3 ∧
      hop.run 2 99 left = some (.ok result, after) ∧ after.board.cells = alone.board.cells ∧
      after.log.events.toList = left.log.events.toList ++ alone.log.events.toList.map fun event =>
        { event with id := left.log.size + event.id } := by
  obtain ⟨site, accepted⟩ : ∃ site, Site.ofEntry? walkSettings "main.gbs" hopSource = some site :=
    Option.isSome_iff_exists.mp (by decide +kernel)
  obtain ⟨_, walkAccepted⟩ := walk_accepted
  obtain ⟨walk, -, walkLoaded, -⟩ := Site.runs_of_ofEntry? walkAccepted
  obtain ⟨hop, loaded, same⟩ := run_as_on_new_machine accepted
  have ran : (do
      let walk ← (fresh (loadEntry walkSettings "main.gbs" walkSource)).toOption
      let hop ← (fresh (loadEntry walkSettings "main.gbs" hopSource)).toOption
      let (failed, left) ← walk.run 2 99 (.ofBoard (.blank 2 1))
      let (ended, alone) ← hop.run 2 99 left.renewed
      return (left.board.saved.length, left.log.size, alone.log.size,
        failed.toOption.isSome, ended.toOption.isSome)) = some (1, 4, 3, false, true) := by
    decide +kernel
  rw [walkLoaded, loaded] at ran
  simp only [Except.toOption, Option.bind_eq_bind, Option.bind_some, Option.bind_eq_some_iff,
    Option.pure_def, Option.some.injEq, Prod.mk.injEq, Prod.exists] at ran
  obtain ⟨failed, left, walks, ended, alone, hops, saved, events, fewEvents, fails, ends⟩ := ran
  cases failed with
  | ok => cases fails
  | error error =>
    cases ended with
    | error => cases ends
    | ok result =>
      obtain ⟨after, again, -, -, sameCells, -, sameEvents⟩ := (same 2 99 left).2 hops
      exact ⟨site, walk, hop, error, result, left, alone, after, accepted, walkLoaded, loaded,
        walks, saved, events, hops, fewEvents, again, sameCells, sameEvents⟩

end StoneBoard
