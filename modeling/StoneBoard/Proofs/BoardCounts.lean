import Mathlib.Algebra.Group.Nat.Defs
import StoneBoard.Proofs.BoardHistory

/-!
# Boards as counts

A grid says of a board what can be seen of it: its size, the place of the head, how many stones
of each color lie on each place, and the same of all states that have been saved.  It knows
nothing of cells and of the order in which they are stored.  Every operation on a board does to
its grid what the operation is named for, and a board is known from its grid.
-/

namespace StoneBoard

abbrev Counts := Place → Color → Nat

/-- What can be seen of a board.  The state saved last is the first of `saved`. -/
structure Grid where
  width : Nat
  height : Nat
  head : Place
  count : Counts
  saved : List (Place × Counts)

/-- What can be asked of a board. -/
inductive BoardRequest where
  | putStone (color : Color)
  | takeStone (color : Color)
  | moveHead (direction : Direction)
  | goToOrigin
  | clear
  | save
  | restore

inductive BoardRefusal where
  | fault (fault : BoardFault)
  | nothingSaved

/-! ## Operations on grids -/

namespace Grid

def blank (width height : Nat) : Grid where
  width := max width 1
  height := max height 1
  head := ⟨0, 0⟩
  count := fun _ _ => 0
  saved := []

/-- Another number of stones of one color on one place; all else stays. -/
def setCount (grid : Grid) (place : Place) (color : Color) (number : Nat) : Grid :=
  { grid with
    count := fun other shade =>
      if other = place ∧ shade = color then number else grid.count other shade }

def putStone (grid : Grid) (color : Color) : Except BoardFault Grid :=
  let number := grid.count grid.head color
  if number = 2 ^ 64 - 1 then .error (.stoneOverflow color)
  else .ok (grid.setCount grid.head color (number + 1))

def takeStone (grid : Grid) (color : Color) : Except BoardFault Grid :=
  let number := grid.count grid.head color
  if number = 0 then .error (.emptyColor color)
  else .ok (grid.setCount grid.head color (number - 1))

/-- The place next to the head.  Rows grow to the north, columns to the east. -/
def neighbour? (grid : Grid) : Direction → Option Place
  | .north =>
      if grid.head.row + 1 < grid.height then some ⟨grid.head.column, grid.head.row + 1⟩ else none
  | .east =>
      if grid.head.column + 1 < grid.width then some ⟨grid.head.column + 1, grid.head.row⟩
      else none
  | .south =>
      if 0 < grid.head.row then some ⟨grid.head.column, grid.head.row - 1⟩ else none
  | .west =>
      if 0 < grid.head.column then some ⟨grid.head.column - 1, grid.head.row⟩ else none

def canMove (grid : Grid) (direction : Direction) : Bool := (grid.neighbour? direction).isSome

def moveHead (grid : Grid) (direction : Direction) : Except BoardFault Grid :=
  match grid.neighbour? direction with
  | some place => .ok { grid with head := place }
  | none => .error (.cannotMove direction)

def grant (grid : Grid) : BoardRequest → Except BoardRefusal Grid
  | .putStone color => (grid.putStone color).mapError .fault
  | .takeStone color => (grid.takeStone color).mapError .fault
  | .moveHead direction => (grid.moveHead direction).mapError .fault
  | .goToOrigin => .ok { grid with head := ⟨0, 0⟩ }
  | .clear => .ok { grid with count := fun _ _ => 0 }
  | .save => .ok { grid with saved := (grid.head, grid.count) :: grid.saved }
  | .restore =>
      match grid.saved with
      | [] => .error .nothingSaved
      | (head, count) :: earlier => .ok { grid with head, count, saved := earlier }

/-- Does what is asked for, one request after the other, and tells of each refusal.  What is
refused changes nothing. -/
def serve (grid : Grid) : List BoardRequest → Grid × List (Option BoardRefusal)
  | [] => (grid, [])
  | request :: rest =>
      match grid.grant request with
      | .ok after =>
          let (last, refusals) := after.serve rest
          (last, none :: refusals)
      | .error refusal =>
          let (last, refusals) := grid.serve rest
          (last, some refusal :: refusals)

end Grid

/-! ## Grids of boards -/

theorem Cell.eq_of_count {cell other : Cell}
    (same : ∀ color, cell.count color = other.count color) : cell = other := by
  cases cell
  cases other
  rw [Cell.mk.injEq]
  exact ⟨same .blue, same .black, same .red, same .green⟩

def Snapshot.counts (width height : Nat) (snapshot : Snapshot) : Counts :=
  (Board.mk width height snapshot.cells snapshot.head []).stonesAt

namespace Board

variable {other : Board}

def grid (board : Board) : Grid where
  width := board.width
  height := board.height
  head := board.head
  count := board.stonesAt
  saved := board.saved.map fun snapshot =>
    (snapshot.head, snapshot.counts board.width board.height)

def grant (board : Board) : BoardRequest → Except BoardRefusal Board
  | .putStone color => (board.putStone color).mapError .fault
  | .takeStone color => (board.takeStone color).mapError .fault
  | .moveHead direction => (board.moveHead direction).mapError .fault
  | .goToOrigin => .ok board.goToOrigin
  | .clear => .ok board.clear
  | .save => .ok board.save
  | .restore =>
      match board.restore? with
      | some earlier => .ok earlier
      | none => .error .nothingSaved

def serve (board : Board) : List BoardRequest → Board × List (Option BoardRefusal)
  | [] => (board, [])
  | request :: rest =>
      match board.grant request with
      | .ok after =>
          let (last, refusals) := after.serve rest
          (last, none :: refusals)
      | .error refusal =>
          let (last, refusals) := board.serve rest
          (last, some refusal :: refusals)

variable {board after : Board} {place : Place}

/-! ## Single operations -/

theorem stonesAt_of_contains (board : Board) (onBoard : board.contains place = true)
    (color : Color) : board.stonesAt place color = (board.cell place).count color := if_pos onBoard

theorem stonesAt_of_outside (board : Board) (outside : board.contains place = false)
    (color : Color) : board.stonesAt place color = 0 := by
  rw [stonesAt, outside]
  rfl

theorem WellFormed.stonesAt_head (wellFormed : board.WellFormed) (color : Color) :
    board.stonesAt board.head color = board.stones color :=
  board.stonesAt_of_contains wellFormed.head color

theorem stonesAt_eq_zero (empty : ∀ cell ∈ board.cells, cell = .empty) :
    board.stonesAt = fun _ _ => 0 := by
  funext place color
  unfold stonesAt
  split
  · rw [cell, Array.getD_eq_getD_getElem?]
    cases found : board.cells[board.index place]? with
    | none => exact Cell.count_empty color
    | some cell =>
      rw [Option.getD_some, empty cell (Array.mem_of_getElem? found), Cell.count_empty]
  · rfl

theorem grid_blank (width height : Nat) : (blank width height).grid = .blank width height := by
  have none : (blank width height).stonesAt = fun _ _ => 0 :=
    stonesAt_eq_zero fun cell mem => (Array.mem_replicate.mp mem).2
  simp only [grid, none]
  rfl

theorem grid_setStones (wellFormed : board.WellFormed) (onBoard : board.contains place = true)
    (color : Color) (number : Nat) :
    (board.setStones place color number).grid = board.grid.setCount place color number := by
  have count : (board.setStones place color number).stonesAt =
      (board.grid.setCount place color number).count := by
    funext other shade
    change _ = if other = place ∧ shade = color then number else board.stonesAt other shade
    cases onBoardToo : board.contains other with
    | false =>
      have apart : other ≠ place := by
        rintro rfl
        rw [onBoard] at onBoardToo
        cases onBoardToo
      rw [stonesAt_of_outside (board.setStones place color number) onBoardToo,
        if_neg (fun both => apart both.1), board.stonesAt_of_outside onBoardToo]
    | true =>
      rw [stonesAt_of_contains (board.setStones place color number) onBoardToo,
        cell_setStones color number wellFormed.current.size onBoard onBoardToo,
        board.stonesAt_of_contains onBoardToo]
      by_cases same : other = place
      · subst same
        rw [if_pos rfl, Cell.count_setCount]
        simp
      · rw [if_neg same, if_neg (fun both => same both.1)]
  simp only [grid, count]
  rfl

theorem grid_putStone (wellFormed : board.WellFormed) (color : Color) :
    (board.putStone color).map grid = board.grid.putStone color := by
  have few : board.stones color ≤ 2 ^ 64 - 1 := wellFormed.stones_le board.head color
  have number : board.grid.count board.grid.head color = board.stones color :=
    wellFormed.stonesAt_head color
  simp only [Grid.putStone, number, putStone]
  by_cases full : board.stones color = 2 ^ 64 - 1
  · have noRoom : ¬ board.stones color < Text.maxCount := Nat.not_lt_of_le (Nat.le_of_eq full.symm)
    rw [if_pos full, if_neg noRoom]
    rfl
  · have room : board.stones color < Text.maxCount := Nat.lt_of_le_of_ne few full
    rw [if_neg full, if_pos room]
    exact congrArg Except.ok (grid_setStones wellFormed wellFormed.head color _)

theorem grid_takeStone (wellFormed : board.WellFormed) (color : Color) :
    (board.takeStone color).map grid = board.grid.takeStone color := by
  have number : board.grid.count board.grid.head color = board.stones color :=
    wellFormed.stonesAt_head color
  simp only [Grid.takeStone, number, takeStone]
  cases board.stones color with
  | zero => rfl
  | succ fewer => exact congrArg Except.ok (grid_setStones wellFormed wellFormed.head color fewer)

theorem grid_neighbour? (wellFormed : board.WellFormed) (dir : Direction) :
    board.grid.neighbour? dir = board.neighbour? dir := by
  have column : board.head.column < board.width := wellFormed.current.column
  have row : board.head.row < board.height := wellFormed.current.row
  unfold neighbour? Grid.neighbour?
  cases dir <;> simp only [grid, Direction.columnStep, Direction.rowStep] <;>
    refine if_ctx_congr (by omega) (fun inside => ?_) (fun _ => rfl) <;>
    simp only [Option.some.injEq, Place.mk.injEq] <;> omega

theorem grid_moveHead (wellFormed : board.WellFormed) (dir : Direction) :
    (board.moveHead dir).map grid = board.grid.moveHead dir := by
  rw [Grid.moveHead, grid_neighbour? wellFormed, moveHead]
  cases board.neighbour? dir <;> rfl

theorem grid_clear (board : Board) :
    board.clear.grid = { board.grid with count := fun _ _ => 0 } := by
  have none : board.clear.stonesAt = fun _ _ => 0 := by
    apply stonesAt_eq_zero
    intro cell mem
    obtain ⟨_, -, rfl⟩ := Array.mem_map.mp mem
    rfl
  simp only [grid, none]
  rfl

/-- What is granted is done to the grid as well, and what is refused is refused there too. -/
theorem grid_grant (wellFormed : board.WellFormed) (request : BoardRequest) :
    (board.grant request).map grid = board.grid.grant request := by
  cases request with
  | putStone color =>
    rw [Grid.grant, ← grid_putStone wellFormed, grant]
    cases board.putStone color <;> rfl
  | takeStone color =>
    rw [Grid.grant, ← grid_takeStone wellFormed, grant]
    cases board.takeStone color <;> rfl
  | moveHead dir =>
    rw [Grid.grant, ← grid_moveHead wellFormed, grant]
    cases board.moveHead dir <;> rfl
  | goToOrigin => rfl
  | clear => exact congrArg Except.ok (grid_clear board)
  | save => rfl
  | restore =>
    obtain ⟨width, height, cells, head, saved⟩ := board
    cases saved <;> rfl

/-! ## One request after the other -/

theorem operation_of_grant {request : BoardRequest} (granted : board.grant request = .ok after) :
    Operation board after := by
  cases request with
  | putStone color => exact .putStone color (mapError_eq_ok.mp granted)
  | takeStone color => exact .takeStone color (mapError_eq_ok.mp granted)
  | moveHead dir => exact .moveHead dir (mapError_eq_ok.mp granted)
  | goToOrigin =>
    cases granted
    exact .goToOrigin board
  | clear =>
    cases granted
    exact .clear board
  | save =>
    cases granted
    exact .save board
  | restore =>
    have restored : board.restore = after := by
      unfold grant at granted
      unfold restore
      cases earlier : board.restore? with
      | none => simp [earlier] at granted
      | some earlier => simpa [earlier] using granted
    rw [← restored]
    exact .restore board

theorem Reachable.serve (reachable : board.Reachable) (requests : List BoardRequest) :
    (board.serve requests).1.Reachable := by
  induction requests generalizing board with
  | nil => exact reachable
  | cons request rest ih =>
    rw [Board.serve]
    cases granted : board.grant request with
    | error refusal => exact ih reachable
    | ok after => exact ih (reachable.operation (operation_of_grant granted))

theorem grid_serve (wellFormed : board.WellFormed) (requests : List BoardRequest) :
    (board.serve requests).1.grid = (board.grid.serve requests).1 ∧
      (board.serve requests).2 = (board.grid.serve requests).2 := by
  induction requests generalizing board with
  | nil => exact ⟨rfl, rfl⟩
  | cons request rest ih =>
    have same := grid_grant wellFormed request
    rw [serve, Grid.serve, ← same]
    cases granted : board.grant request with
    | error refusal =>
      obtain ⟨sameGrid, sameRefusals⟩ := ih wellFormed
      exact ⟨sameGrid, congrArg (some refusal :: ·) sameRefusals⟩
    | ok after =>
      obtain ⟨sameGrid, sameRefusals⟩ := ih (wellFormed.operation (operation_of_grant granted))
      exact ⟨sameGrid, congrArg (none :: ·) sameRefusals⟩

/-! ## Boards with the same grid -/

theorem cells_of_stonesAt (board other : Board) (width : board.width = other.width)
    (height : board.height = other.height) (size : board.cells.size = board.width * board.height)
    (otherSize : other.cells.size = other.width * other.height)
    (same : board.stonesAt = other.stonesAt) : board.cells = other.cells := by
  apply cells_ext width height size otherSize
  intro place onBoard
  have otherOn : other.contains place = true := by
    rw [contains_iff, ← width, ← height]
    exact contains_iff.mp onBoard
  apply Cell.eq_of_count
  intro color
  rw [← board.stonesAt_of_contains onBoard, same, other.stonesAt_of_contains otherOn]

theorem snapshots_ext {width height : Nat} {saved others : List Snapshot}
    (fit : ∀ snapshot ∈ saved, snapshot.Fits width height)
    (othersFit : ∀ snapshot ∈ others, snapshot.Fits width height)
    (same : (saved.map fun snapshot => (snapshot.head, snapshot.counts width height)) =
      others.map fun snapshot => (snapshot.head, snapshot.counts width height)) :
    saved = others := by
  induction saved generalizing others with
  | nil => exact (List.map_eq_nil_iff.mp same.symm).symm
  | cons snapshot rest ih =>
    cases others with
    | nil => cases same
    | cons other othersRest =>
      obtain ⟨fits, restFit⟩ := List.forall_mem_cons.mp fit
      obtain ⟨otherFits, othersRestFit⟩ := List.forall_mem_cons.mp othersFit
      simp only [List.map_cons, List.cons.injEq, Prod.mk.injEq] at same
      obtain ⟨⟨sameHead, sameCounts⟩, sameRest⟩ := same
      have sameCells : snapshot.cells = other.cells :=
        cells_of_stonesAt ⟨width, height, snapshot.cells, snapshot.head, []⟩
          ⟨width, height, other.cells, other.head, []⟩ rfl rfl fits.size otherFits.size sameCounts
      have sameSnapshot : snapshot = other := by
        cases snapshot
        cases other
        cases sameCells
        cases sameHead
        rfl
      rw [sameSnapshot, ih restFit othersRestFit sameRest]

theorem grid_injective (wellFormed : board.WellFormed) (otherWellFormed : other.WellFormed)
    (same : board.grid = other.grid) : board = other := by
  obtain ⟨width, height, cells, head, saved⟩ := board
  obtain ⟨otherWidth, otherHeight, otherCells, otherHead, otherSaved⟩ := other
  simp only [grid, Grid.mk.injEq] at same
  obtain ⟨rfl, rfl, rfl, sameCounts, sameSaved⟩ := same
  have sameCells : cells = otherCells := cells_of_stonesAt ⟨width, height, cells, head, saved⟩
      ⟨width, height, otherCells, head, otherSaved⟩ rfl rfl wellFormed.current.size
      otherWellFormed.current.size sameCounts
  have sameSnapshots : saved = otherSaved :=
    snapshots_ext wellFormed.saved otherWellFormed.saved sameSaved
  rw [sameCells, sameSnapshots]

theorem canMove_eq (wellFormed : board.WellFormed) (dir : Direction) :
    board.canMove dir = board.grid.canMove dir := by
  rw [Grid.canMove, grid_neighbour? wellFormed, canMove]

theorem moveHead_eq_error (dir : Direction) : board.moveHead dir = .error (.cannotMove dir) ↔
      board.canMove dir = false := by
  unfold moveHead canMove
  cases board.neighbour? dir <;> simp

theorem sameContents_iff (wellFormed : board.WellFormed) (otherWellFormed : other.WellFormed) :
    board.sameContents other = true ↔
      { board.grid with saved := [] } = { other.grid with saved := [] } := by
  simp only [sameContents, Bool.and_eq_true, beq_iff_eq, grid, Grid.mk.injEq, and_true]
  constructor
  · obtain ⟨width, height, cells, head, saved⟩ := board
    obtain ⟨otherWidth, otherHeight, otherCells, otherHead, otherSaved⟩ := other
    rintro ⟨⟨⟨rfl, rfl⟩, rfl⟩, rfl⟩
    exact ⟨rfl, rfl, rfl, rfl⟩
  · rintro ⟨sameWidth, sameHeight, sameHead, sameCounts⟩
    exact ⟨⟨⟨sameWidth, sameHeight⟩, sameHead⟩, cells_of_stonesAt board other sameWidth sameHeight
      wellFormed.current.size otherWellFormed.current.size sameCounts⟩

end Board

/-- A builtin that fails leaves the board and the log as they were. -/
theorem Machine.scene_of_callBuiltin {machine : Machine} {name : String} {count : Nat}
    {builtin : Builtin} {error : Error} {scene : Scene}
    (failed : machine.callBuiltin name count builtin = .fault error scene) :
    scene = machine.scene := by
  unfold callBuiltin at failed
  split at failed
  next =>
    cases failed
    rfl
  next =>
    unfold withValues at failed
    split at failed
    next =>
      dsimp only at failed
      split at failed
      · cases failed
        rfl
      · cases failed
      · cases failed
    next =>
      cases failed
      rfl

open Board

def fullCell : Board where
  width := 2
  height := 3
  cells := #[.empty, .empty, .empty, .empty, .empty, ⟨0, 0, 18446744073709551615, 0⟩]
  head := ⟨1, 1⟩
  saved := []

def fullCellRequests : List BoardRequest :=
  [.save, .moveHead .north, .putStone .red, .takeStone .blue, .moveHead .east, .takeStone .red,
    .restore, .restore]

end StoneBoard
