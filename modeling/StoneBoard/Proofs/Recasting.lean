import StoneBoard.Proofs.Pairing

/-!
# Machines in other surroundings

A machine may stand in other modules, on another board and with another log.  Where names stand for
the same routines and builtins have the same effect there, a step does the same as before: what
surrounds a machine can be replaced before the step or after it.
-/

namespace StoneBoard

/-- Other surroundings of a machine: modules of which errors tell the same, a board on which
builtins do the same, and a log that is written in the same way. -/
structure Recast where
  home : CompiledModule → CompiledModule
  board : Board → Board
  log : RunLog → RunLog
  qualifier (program : CompiledModule) : (home program).qualifier = program.qualifier
  file (program : CompiledModule) : (home program).file = program.file
  head (before : Board) : (board before).head = before.head
  run (builtin : Builtin) (arguments : List Value) (before : Board) :
    builtin.run arguments (board before) =
      (builtin.run arguments before).map fun after => (board after.1, after.2)
  save (before : Board) : board before.save = (board before).save
  record (before : RunLog) (routine action : String) (head : Place) :
    log (before.record routine action head) = (log before).record routine action head
  openMark (before : RunLog) : log before.openMark = (log before).openMark

variable (view : Recast)

def Frame.recast (frame : Frame) : Frame := { frame with home := view.home frame.home }

def Scene.recast (scene : Scene) : Scene := ⟨view.board scene.board, view.log scene.log⟩

def Machine.recast (machine : Machine) : Machine :=
  { machine with
    frame := machine.frame.recast view
    callers := machine.callers.map (Frame.recast view)
    scene := machine.scene.recast view }

def Machine.Outcome.recast : Outcome → Outcome
  | .next machine => .next (machine.recast view)
  | .done result scene => .done result (scene.recast view)
  | .fault error scene => .fault error (scene.recast view)

def Recast.pairing : Pairing where
  Frames frame other := other = frame.recast view
  Scenes scene other := other = scene.recast view
  span? := by
    rintro frame _ rfl
    rfl
  traceLine := by
    rintro frame _ rfl
    simp only [Frame.traceLine, Frame.span?, Frame.recast, CompiledModule.qualified, view.qualifier]
  traceVariables := by
    rintro frame _ rfl
    rfl
  qualifier := by
    rintro frame _ rfl
    exact (view.qualifier frame.home).symm
  file := by
    rintro frame _ rfl
    exact (view.file frame.home).symm
  name := by
    rintro frame _ rfl
    rfl
  base := by
    rintro frame _ rfl
    rfl
  builtin := by
    rintro scene _ rfl builtin arguments
    rw [Builtin.Agrees, Scene.recast, view.run]
    rcases builtin.run arguments scene.board with cause | ⟨board, _ | value⟩
    · exact .inl ⟨cause, rfl, rfl⟩
    · refine .inr (.inr ⟨board, view.board board, rfl, rfl, fun routine action => ?_⟩)
      rw [Scene.recast, view.head, view.record]
    · exact .inr (.inl ⟨board, view.board board, value, rfl, rfl⟩)

namespace Machine

variable {view} (machine : Machine)

theorem machines_recast : view.pairing.Machines machine (machine.recast view) :=
  ⟨rfl, List.forall₂_map_right_iff.mpr (List.forall₂_same.mpr fun _ _ => rfl), rfl, rfl, rfl⟩

theorem recast_of_outcomes {outcome other : Outcome}
    (outcomes : view.pairing.Outcomes outcome other) : other = outcome.recast view := by
  cases outcomes with
  | @next first second machines =>
    obtain ⟨frame, callers, depth, stack, scene⟩ := machines
    have sameCallers : second.callers = first.callers.map (Frame.recast view) := by
      generalize first.callers = waiting, second.callers = otherWaiting at callers
      induction callers with
      | nil => rfl
      | cons here _ ih => rw [List.map_cons, ih, ← show _ = _ from here]
    obtain ⟨_, _, _, _, _⟩ := second
    cases frame
    cases depth
    cases stack
    cases scene
    cases sameCallers
    rfl
  | done result scenes =>
    cases scenes
    rfl
  | fault error scenes =>
    cases scenes
    rfl

def Reads (view : Recast) (home : CompiledModule) (name : String) : Prop :=
  (view.home home).exported? name =
    (home.exported? name).map fun link => (view.home link.1, link.2)

def Restores (view : Recast) (scene : Scene) : Prop :=
  view.board scene.board.restore = (view.board scene.board).restore ∧
    view.log scene.log.closeMark = (view.log scene.log).closeMark

theorem step_recast (limit : Nat) (reads : ∀ name count span,
      machine.frame.routine.code[machine.frame.offset]? = some (.call name count, span) →
        Reads view machine.frame.home name) (restores : ∀ span,
      machine.frame.routine.code[machine.frame.offset]? = some (.leave, span) →
        Restores view machine.scene) :
    (machine.recast view).step limit = (machine.step limit).recast view := by
  refine recast_of_outcomes (machine.advance.machines_recast.step ?_)
  change Option.Rel _ _ machine.frame.routine.code[machine.frame.offset]?
  cases found : machine.frame.routine.code[machine.frame.offset]? with
  | none => exact .none
  | some line =>
    refine .some ?_
    rw [← line.1.renamed_id]
    refine machine.advance.machines_recast.execute limit (Pairing.alike_self rfl rfl
      (fun _ => rfl) (fun _ => rfl) (fun name count isCall => ?_) ?_ fun isLeave => ?_)
    · have same := reads name count line.2 (by rw [found, ← isCall])
      change Option.Rel _ (machine.frame.home.exported? name)
        ((view.home machine.frame.home).exported? name)
      rw [same]
      cases machine.frame.home.exported? name with
      | none => exact .none
      | some link => exact .some ⟨rfl, fun _ _ => rfl⟩
    · exact congrArg₂ Scene.mk (view.save _).symm (view.openMark _).symm
    · obtain ⟨board, log⟩ := restores line.2 (by rw [found, ← isLeave])
      exact congrArg₂ Scene.mk board.symm log.symm

end Machine

end StoneBoard
