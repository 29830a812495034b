import StoneBoard.Proofs.Frames
import StoneBoard.Proofs.Origins

/-!
# Who is to blame

An error of a run is attributed to the innermost call of the first program, wherever it comes
up.  Its place lies in the text of the first program, and its file is that of the first program.
-/

namespace StoneBoard

open List

variable {error : Error} {scene : Scene}
variable {cause : Cause} {budget : Nat}

namespace Cause

theorem callLimit?_of_isOperational (operational : cause.isOperational = true) :
    cause.callLimit? = none := by
  cases cause <;> first | rfl | cases operational

end Cause

namespace Machine

variable {machine : Machine} {maxDepth : Nat}

/-! ## Errors of a step -/

/-- An error that comes up while some calls are under way.  If it is about a limit on calls,
this is the limit of the run. -/
def Reports (maxDepth : Nat) (machine : Machine) (error : Error) : Prop :=
  ∃ cause, error = machine.error cause ∧ ∀ limit, cause.callLimit? = some limit → limit = maxDepth

theorem Hinders.limit (hinders : machine.Hinders maxDepth cause) {limit : Nat}
    (limited : cause.callLimit? = some limit) : limit = maxDepth := by
  rcases hinders with unlimited | rfl | ⟨builtin, args, below, listed, popped, failed⟩
  · cases unlimited.symm.trans limited
  · exact (Option.some.inj limited).symm
  · obtain ⟨-, taken⟩ := Stack.pushMany_of_popMany? popped
    have operational := FailsExpectedly.run listed machine.scene.board taken.symm cause failed
    cases (Cause.callLimit?_of_isOperational operational).symm.trans limited

theorem step_reports (failed : machine.step maxDepth = .fault error scene) :
    machine.advance.Reports maxDepth error := by
  rcases step_does maxDepth machine with ⟨instr, span, -, does⟩ | ⟨cause, unlimited, fails⟩
  · rw [failed] at does
    cases does with
    | fails hinders => exact ⟨_, rfl, fun _ limited => hinders.limit limited⟩
  · cases failed.symm.trans fails
    exact ⟨cause, rfl, fun _ limited => by cases unlimited.symm.trans limited⟩

/-! ## Calls of a run -/

/-- Everything that is at work is a routine of the first program, or belongs to another module;
and it all began with the first program. -/
structure Rooted (entry : CompiledModule) (machine : Machine) : Prop where
  outermost : machine.calls.getLast?.map Prod.fst = some entry
  belongs : ∀ call ∈ machine.calls,
    (call.1 = entry ∧ ∃ name, entry.routines.get? name = some call.2) ∨ call.1.Foreign

variable {entry : CompiledModule} {src : String} {file : String}

theorem Rooted.step {after : Machine} (rooted : machine.Rooted entry)
    (isEntry : entry.IsEntry src file) (stepped : machine.step maxDepth = .next after) :
    after.Rooted entry := by
  have moves := step_moves stepped
  constructor
  · have outermost := rooted.outermost
    cases moves with
    | stays same => rwa [same]
    | enters known added => rwa [added, calls, frames, map_cons, getLast?_cons_cons]
    | leaves removed =>
      have before : machine.calls =
          (machine.frame.home, machine.frame.routine) :: after.calls := by
        rw [removed]
        rfl
      rwa [before, calls, frames, map_cons, getLast?_cons_cons] at outermost
  · apply moves.calls _ rooted.belongs
    rintro ⟨home, routine⟩ name ⟨otherHome, otherRoutine⟩ (⟨rfl, -⟩ | foreign) known
    · unfold CompiledModule.exported? at known
      split at known
      next own isOwn =>
        cases known
        exact .inl ⟨rfl, name, isOwn⟩
      next => exact .inr (isEntry.linked name _ known)
    · exact .inr (foreign.exported? known)

theorem rooted_start {name : String} {main : Routine} (found : entry.routines.get? name = some main)
    (scene : Scene) : (start entry main scene).Rooted entry := by
  refine ⟨rfl, fun call mem => .inl ?_⟩
  obtain rfl := List.mem_singleton.mp mem
  exact ⟨rfl, name, found⟩

theorem Rooted.run (rooted : machine.Rooted entry) (isEntry : entry.IsEntry src file)
    (failed : machine.run maxDepth budget = some (.error error, scene)) :
    ∃ last : Machine, last.Rooted entry ∧ last.Reports maxDepth error := by
  induction budget generalizing machine with
  | zero => cases failed
  | succ budget ih =>
    rw [Machine.run] at failed
    split at failed
    next after stepped => exact ih (rooted.step isEntry stepped) failed
    next => cases failed
    next stepped =>
      cases failed
      exact ⟨machine.advance, ⟨rooted.outermost, rooted.belongs⟩, step_reports stepped⟩

theorem Rooted.find?_eq (rooted : machine.Rooted entry) (isEntry : entry.IsEntry src file) :
    machine.frames.find? (fun frame => frame.home.qualifier.isEmpty) =
      some machine.blamedFrame := by
  have unqualified : ∃ frame ∈ machine.frames, frame.home.qualifier.isEmpty = true := by
    obtain ⟨⟨home, routine⟩, isLast, rfl⟩ := Option.map_eq_some_iff.mp rooted.outermost
    obtain ⟨frame, mem, same⟩ := List.mem_map.mp (mem_of_getLast? isLast)
    cases same
    exact ⟨frame, mem, by rw [isEntry.unqualified]; rfl⟩
  obtain ⟨frame, found⟩ := Option.isSome_iff_exists.mp (List.find?_isSome.mpr unqualified)
  rw [Machine.blamedFrame, found, Option.getD_some]

theorem Rooted.blamedFrame (rooted : machine.Rooted entry) (isEntry : entry.IsEntry src file) :
    machine.blamedFrame.home = entry ∧
      ∃ name, entry.routines.get? name = some machine.blamedFrame.routine := by
  have found := rooted.find?_eq isEntry
  have noQualifier : machine.blamedFrame.home.qualifier.isEmpty = true := by
    simpa using find?_some found
  have isCall : (machine.blamedFrame.home, machine.blamedFrame.routine) ∈ machine.calls :=
    mem_map_of_mem (mem_of_find?_eq_some found)
  rcases rooted.belongs _ isCall with own | foreign
  · exact own
  · exact absurd (String.isEmpty_iff.mp noQualifier) foreign.qualified

end Machine

/-- An error of a run of a first program lies in its text and names its file; an error about
too many calls tells the limit of the run. -/
theorem CompiledModule.IsEntry.blame {src : String} {file : String} {entry : CompiledModule}
    (isEntry : entry.IsEntry src file) {maxDepth : Nat} {after : Scene}
    (failed : entry.run maxDepth budget scene = some (.error error, after)) :
    (∀ span, error.span = some span → span.On src) ∧ error.file = some file ∧
      ∀ limit, error.cause.callLimit? = some limit → limit = maxDepth := by
  unfold CompiledModule.run at failed
  split at failed
  next main found =>
    obtain ⟨last, rooted, cause, rfl, limited⟩ :=
      (Machine.rooted_start found scene).run isEntry failed
    obtain ⟨home, name, isRoutine⟩ := rooted.blamedFrame isEntry
    refine ⟨fun span isSpan => ?_, ?_, limited⟩
    · have lines := isEntry.routines name _ isRoutine
      obtain ⟨line, isLine, rfl⟩ := Option.map_eq_some_iff.mp isSpan
      exact lines line (Array.mem_toList_iff.mpr (Array.mem_of_getElem? isLine))
    · change some last.blamedFrame.home.file = some file
      rw [home, isEntry.file]
  next =>
    cases failed
    exact ⟨nofun, congrArg some isEntry.file, nofun⟩

end StoneBoard
