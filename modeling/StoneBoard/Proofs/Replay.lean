import StoneBoard.Machine
import StoneBoard.Proofs.Success
import Mathlib.Data.List.Basic

/-!
# Replaying the log

The text of an event names a builtin procedure and its arguments, so the changes of a
board can be read off the log and made again.  This file reads the events, replays them on
a board, and follows the replay through every operation on a scene: recording a change,
saving the board with a mark in the log, and going back to both.
-/

namespace StoneBoard

open List

variable {action : Action} {args : List Value} {before after : Board}

/-- One change of the board: a builtin procedure with its arguments. -/
structure Deed where
  action : Action
  arguments : List Value
deriving DecidableEq

namespace Deed

def all : List Deed :=
  Color.all.map (fun color => ⟨.putStone, [.color color]⟩) ++
    Color.all.map (fun color => ⟨.takeStone, [.color color]⟩) ++
    Direction.all.map (fun direction => ⟨.move, [.direction direction]⟩) ++
    [⟨.goToOrigin, []⟩, ⟨.clearBoard, []⟩]

def text (deed : Deed) : String :=
  let arguments := String.intercalate ", " (deed.arguments.map Value.render)
  s!"{deed.action.name}({arguments})"

/-- The change that a text of the log tells of. -/
def ofText? (text : String) : Option Deed :=
  all.find? fun deed => deed.text == text

def redo? (deed : Deed) (board : Board) : Option Board :=
  (deed.action.perform deed.arguments board).toOption

theorem ofText?_text {deed : Deed} (known : deed ∈ all) : ofText? deed.text = some deed := by
  have everyText : ∀ known ∈ all, ofText? known.text = some known := by decide
  exact everyText deed known

end Deed

/-! ## Changes of the board -/

namespace Value

variable {routine : String} {value : Value}

theorem asColor_eq_ok {shade : Color} :
    value.asColor routine = .ok shade ↔ value = .color shade := by
  cases value <;> simp [asColor]

theorem asDirection_eq_ok {heading : Direction} :
    value.asDirection routine = .ok heading ↔ value = .direction heading := by
  cases value <;> simp [asDirection]

end Value

namespace Action

/-- The board operation behind each change that can succeed. -/
inductive Performs : Action → List Value → Board → Board → Prop
  | putStone {board after : Board} (color : Color) (put : board.putStone color = .ok after) :
      Performs .putStone [.color color] board after
  | takeStone {board after : Board} (color : Color)
      (taken : board.takeStone color = .ok after) :
      Performs .takeStone [.color color] board after
  | move {board after : Board} (direction : Direction)
      (moved : board.moveHead direction = .ok after) :
      Performs .move [.direction direction] board after
  | goToOrigin (board : Board) : Performs .goToOrigin [] board board.goToOrigin
  | clearBoard (board : Board) : Performs .clearBoard [] board board.clear

theorem performs_of_perform (performed : action.perform args before = .ok after) :
    Performs action args before after := by
  unfold perform at performed
  split at performed
  · simp only [bind_eq_ok, Value.asColor_eq_ok, mapError_eq_ok] at performed
    obtain ⟨color, rfl, put⟩ := performed
    exact .putStone color put
  · simp only [bind_eq_ok, Value.asColor_eq_ok, mapError_eq_ok] at performed
    obtain ⟨color, rfl, taken⟩ := performed
    exact .takeStone color taken
  · simp only [bind_eq_ok, Value.asDirection_eq_ok, mapError_eq_ok] at performed
    obtain ⟨dir, rfl, moved⟩ := performed
    exact .move dir moved
  · cases performed
    exact .goToOrigin before
  · cases performed
    exact .clearBoard before
  · cases performed

theorem Performs.mem_all (performs : Performs action args before after) :
    ⟨action, args⟩ ∈ Deed.all := by
  cases performs with
  | putStone color => cases color <;> decide
  | takeStone color => cases color <;> decide
  | move dir => cases dir <;> decide
  | goToOrigin => decide
  | clearBoard => decide

end Action

namespace Board

variable {board : Board}
variable {color : Color}

def snapshot (board : Board) : Snapshot := ⟨board.cells, board.head⟩

def withSnapshot (board : Board) (snapshot : Snapshot) : Board :=
  { board with cells := snapshot.cells, head := snapshot.head }

def SameSize (board other : Board) : Prop :=
  board.width = other.width ∧ board.height = other.height

theorem putStone_eq_ok : board.putStone color = .ok after ↔
      board.stones color < Text.maxCount ∧
        board.setStones board.head color (board.stones color + 1) = after := by
  by_cases room : board.stones color < Text.maxCount <;> simp [putStone, room]

theorem takeStone_eq_ok : board.takeStone color = .ok after ↔
      0 < board.stones color ∧
        board.setStones board.head color (board.stones color - 1) = after := by
  unfold takeStone
  split
  next none => simp [none]
  next number some => simp [some]

theorem moveHead_eq_ok {dir : Direction} : board.moveHead dir = .ok after ↔
      ∃ place, board.neighbour? dir = some place ∧ { board with head := place } = after := by
  cases neighbour : board.neighbour? dir <;> simp [moveHead, neighbour]

end Board

/-- A change depends on the size, the stones and the head of the board only.  It neither
looks at what has been saved nor touches it. -/
theorem Action.Performs.transfer {other : Board} (performs : Performs action args before after)
    (sameSize : before.SameSize other) : action.perform args (other.withSnapshot before.snapshot) =
        .ok (other.withSnapshot after.snapshot) ∧
      after.saved = before.saved ∧ after.SameSize other := by
  obtain ⟨width, height, cells, head, saved⟩ := before
  obtain ⟨otherWidth, otherHeight, otherCells, otherHead, otherSaved⟩ := other
  obtain ⟨sameWidth, sameHeight⟩ := sameSize
  dsimp only at sameWidth sameHeight
  subst sameWidth
  subst sameHeight
  cases performs with
  | putStone color put =>
    obtain ⟨room, rfl⟩ := Board.putStone_eq_ok.mp put
    refine ⟨?_, rfl, rfl, rfl⟩
    simp only [perform, bind_eq_ok, Value.asColor_eq_ok, mapError_eq_ok]
    exact ⟨color, rfl, Board.putStone_eq_ok.mpr ⟨room, rfl⟩⟩
  | takeStone color taken =>
    obtain ⟨present, rfl⟩ := Board.takeStone_eq_ok.mp taken
    refine ⟨?_, rfl, rfl, rfl⟩
    simp only [perform, bind_eq_ok, Value.asColor_eq_ok, mapError_eq_ok]
    exact ⟨color, rfl, Board.takeStone_eq_ok.mpr ⟨present, rfl⟩⟩
  | move dir moved =>
    obtain ⟨place, inside, rfl⟩ := Board.moveHead_eq_ok.mp moved
    refine ⟨?_, rfl, rfl, rfl⟩
    simp only [perform, bind_eq_ok, Value.asDirection_eq_ok, mapError_eq_ok]
    exact ⟨dir, rfl, Board.moveHead_eq_ok.mpr ⟨place, inside, rfl⟩⟩
  | goToOrigin => exact ⟨rfl, rfl, rfl, rfl⟩
  | clearBoard => exact ⟨rfl, rfl, rfl, rfl⟩

/-! ## Events -/

namespace RunLog

def standing (events : List BoardEvent) : List BoardEvent :=
  events.filter fun event => !event.undone

/-- Makes the changes of some events again, one after the other. -/
def replay (board : Board) : List BoardEvent → Option Board
  | [] => some board
  | event :: rest => do
      let deed ← Deed.ofText? event.action
      let changed ← deed.redo? board
      replay changed rest

theorem replay_append (board : Board) (first second : List BoardEvent) :
    replay board (first ++ second) =
      (replay board first).bind fun changed => replay changed second := by
  induction first generalizing board with
  | nil => rfl
  | cons event rest ih =>
    simp only [cons_append, replay, Option.bind_eq_bind, Option.bind_assoc]
    congr 1
    funext deed
    congr 1
    funext changed
    exact ih changed

theorem standing_append (first second : List BoardEvent) :
    standing (first ++ second) = standing first ++ standing second :=
  filter_append ..

theorem standing_map_undo (events : List BoardEvent) :
    standing (events.map BoardEvent.undo) = [] := by
  simp [standing, BoardEvent.undo]

/-- Undoing changes nothing but the marks of the events from an index on. -/
theorem getElem?_undoFrom (events : Array BoardEvent) (index pos : Nat) :
    (undoFrom events index)[pos]? =
      events[pos]?.map fun event => if index ≤ pos then event.undo else event := by
  fun_induction undoFrom events index with
  | case1 events index inside ih =>
    rw [ih, Array.getElem?_modify]
    rcases Nat.lt_trichotomy index pos with before | here | behind
    · have nextToo : index + 1 ≤ pos := before
      simp [Nat.ne_of_lt before, nextToo, Nat.le_of_lt before]
    · subst here
      have notNext : ¬ index + 1 ≤ index := by omega
      simp [notNext, Function.comp_def]
    · have outside : ¬ index + 1 ≤ pos := by omega
      simp [Nat.ne_of_gt behind, outside, Nat.not_le_of_lt behind]
  | case2 events index outside =>
    by_cases reached : index ≤ pos
    · have absent : events[pos]? = none := by
        apply Array.getElem?_eq_none
        omega
      simp [absent]
    · simp [reached]

@[simp]
theorem size_undoFrom (events : Array BoardEvent) (index : Nat) :
    (undoFrom events index).size = events.size := by
  fun_induction undoFrom events index with
  | case1 events index inside ih => simpa using ih
  | case2 => rfl

theorem toList_undoFrom {events : Array BoardEvent} {index : Nat} (inside : index ≤ events.size) :
    (undoFrom events index).toList =
      events.toList.take index ++ (events.toList.drop index).map BoardEvent.undo := by
  apply ext_getElem?
  intro pos
  have takenLength : (events.toList.take index).length = index := by
    simpa using Nat.min_eq_left inside
  rw [Array.getElem?_toList, getElem?_undoFrom, getElem?_append, takenLength]
  by_cases reached : index ≤ pos
  · have sum : index + (pos - index) = pos := by omega
    simp [reached, Nat.not_lt_of_le reached, sum]
  · have early : pos < index := by omega
    simp [reached, early]

end RunLog

/-! ## The scene and its log -/

/-- What has been saved, against the log: each snapshot comes from replaying the events
before its mark.  The earlier marks lie among those events. -/
def Saves (initial : Board) (events : List BoardEvent) : List Nat → List Snapshot → Prop
  | [], [] => True
  | mark :: marks, snapshot :: saved =>
      mark ≤ events.length ∧
        RunLog.replay initial (RunLog.standing (events.take mark)) =
          some (initial.withSnapshot snapshot) ∧
        Saves initial (events.take mark) marks saved
  | _, _ => False

theorem Saves.append {initial : Board} {events : List BoardEvent} {marks : List Nat}
    {saved : List Snapshot} (saves : Saves initial events marks saved)
    (later : List BoardEvent) : Saves initial (events ++ later) marks saved := by
  cases marks with
  | nil => cases saved <;> exact saves
  | cons mark marks =>
    cases saved with
    | nil => exact saves
    | cons snapshot saved =>
      obtain ⟨inside, replayed, earlier⟩ := saves
      have sameEvents : (events ++ later).take mark = events.take mark :=
        take_append_of_le_length inside
      refine ⟨?_, ?_, ?_⟩
      · simp only [length_append]
        omega
      · rw [sameEvents]
        exact replayed
      · rw [sameEvents]
        exact earlier

/-- The log explains a scene that began with a board: replaying what stands of it gives the
stones and the head, and likewise for everything that has been saved. -/
structure Explains (initial : Board) (scene : Scene) : Prop where
  sameSize : scene.board.SameSize initial
  ids : ∀ {index : Nat} {event : BoardEvent},
    scene.log.events[index]? = some event → event.id = index
  current : RunLog.replay initial scene.log.effective =
    some (initial.withSnapshot scene.board.snapshot)
  saves : Saves initial scene.log.events.toList scene.log.marks scene.board.saved

namespace Explains

variable {board : Board}

theorem ofBoard (unsaved : board.saved = []) : Explains board (.ofBoard board) where
  sameSize := ⟨rfl, rfl⟩
  ids := by simp [Scene.ofBoard, RunLog.empty]
  current := rfl
  saves := by simp [Scene.ofBoard, RunLog.empty, unsaved, Saves]

variable {initial : Board} {scene : Scene}

theorem record (explains : Explains initial scene)
    (performed : action.perform args scene.board = .ok board) (routine : String) : Explains initial
      ⟨board, scene.log.record routine (Deed.text ⟨action, args⟩) board.head⟩ := by
  have performs := Action.performs_of_perform performed
  obtain ⟨again, sameSaved, sameSize⟩ := performs.transfer explains.sameSize
  refine ⟨sameSize, ?_, ?_, ?_⟩
  · intro index event found
    simp only [RunLog.record, Array.getElem?_push] at found
    split at found
    next last =>
      cases found
      exact last.symm
    next => exact explains.ids found
  · have standsToo : RunLog.effective (scene.log.record routine
        (Deed.text ⟨action, args⟩) board.head) = scene.log.effective ++
          [⟨scene.log.events.size, routine, Deed.text ⟨action, args⟩, board.head,
            false⟩] := by
      simp [RunLog.effective, RunLog.record]
    rw [standsToo, RunLog.replay_append, explains.current]
    simp [RunLog.replay, Deed.ofText?_text performs.mem_all, Deed.redo?, again, Except.toOption]
  · simp only [RunLog.record, Array.toList_push, sameSaved]
    exact explains.saves.append _

theorem enter (explains : Explains initial scene) :
    Explains initial ⟨scene.board.save, scene.log.openMark⟩ := by
  have everything : scene.log.events.toList.take scene.log.events.size =
      scene.log.events.toList := take_of_length_le (by simp)
  refine ⟨explains.sameSize, explains.ids, explains.current, ?_⟩
  refine ⟨?_, ?_, ?_⟩
  · simp [RunLog.openMark]
  · change RunLog.replay initial
      (RunLog.standing (scene.log.events.toList.take scene.log.events.size)) = _
    rw [everything]
    exact explains.current
  · change Saves initial (scene.log.events.toList.take scene.log.events.size)
      scene.log.marks scene.board.saved
    rw [everything]
    exact explains.saves

theorem leave (explains : Explains initial scene) :
    Explains initial ⟨scene.board.restore, scene.log.closeMark⟩ := by
  have saves := explains.saves
  -- marks and snapshots come and go together, so there is none of either or one of each
  cases marked : scene.log.marks with
  | nil =>
    cases kept : scene.board.saved with
    | nil =>
      have sameBoard : scene.board.restore = scene.board := by
        simp [Board.restore, Board.restore?, kept]
      have sameLog : scene.log.closeMark = scene.log := by
        simp [RunLog.closeMark, marked]
      rw [sameBoard, sameLog]
      exact explains
    | cons snapshot saved => simp [marked, kept, Saves] at saves
  | cons mark marks =>
    cases kept : scene.board.saved with
    | nil => simp [marked, kept, Saves] at saves
    | cons snapshot saved =>
      rw [marked, kept] at saves
      obtain ⟨inside, replayed, earlier⟩ := saves
      have sameBoard : scene.board.restore =
          { scene.board.withSnapshot snapshot with saved } := by
        simp [Board.restore, Board.restore?, kept, Board.withSnapshot]
      have sameLog : scene.log.closeMark =
          ⟨RunLog.undoFrom scene.log.events mark, marks⟩ := by
        simp [RunLog.closeMark, marked]
      have marksEvents : mark ≤ scene.log.events.size := by simpa using inside
      have undone := RunLog.toList_undoFrom marksEvents
      rw [sameBoard, sameLog]
      refine ⟨explains.sameSize, ?_, ?_, ?_⟩
      · intro index event found
        simp only [RunLog.getElem?_undoFrom, Option.map_eq_some_iff] at found
        obtain ⟨orig, there, rfl⟩ := found
        have sameId := explains.ids there
        split <;> simpa [BoardEvent.undo] using sameId
      · change RunLog.replay initial (RunLog.standing _) = _
        rw [undone, RunLog.standing_append, RunLog.standing_map_undo, append_nil]
        exact replayed
      · rw [undone]
        exact earlier.append _

end Explains

end StoneBoard
