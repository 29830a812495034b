import StoneBoard.Color
import StoneBoard.Direction
import StoneBoard.Text.Numeral

/-!
# The board

A rectangle of cells, each with a number of stones of every color, a head on one of the
cells, and a stack of saved states.  Columns grow to the east, rows to the north, and
both start from zero.  Operations that fail change nothing.
-/

namespace StoneBoard

structure Cell where
  blue : Nat
  black : Nat
  red : Nat
  green : Nat
deriving DecidableEq, Repr, Inhabited

namespace Cell

def empty : Cell := ⟨0, 0, 0, 0⟩

def count (cell : Cell) : Color → Nat
  | .blue => cell.blue
  | .black => cell.black
  | .red => cell.red
  | .green => cell.green

def setCount (cell : Cell) (color : Color) (number : Nat) : Cell :=
  match color with
  | .blue => { cell with blue := number }
  | .black => { cell with black := number }
  | .red => { cell with red := number }
  | .green => { cell with green := number }

@[simp]
theorem count_empty (color : Color) : empty.count color = 0 := by
  cases color <;> rfl

theorem count_setCount (cell : Cell) (color other : Color) (number : Nat) :
    (cell.setCount color number).count other =
      if other = color then number else cell.count other := by
  cases color <;> cases other <;> rfl

end Cell

structure Place where
  column : Nat
  row : Nat
deriving DecidableEq, Repr, Inhabited

namespace Place

def origin : Place := ⟨0, 0⟩

end Place

structure Snapshot where
  cells : Array Cell
  head : Place
deriving DecidableEq, Repr, Inhabited

/-- A board.  Cells are stored row by row from the origin; the state saved last is the
first of `saved`. -/
structure Board where
  width : Nat
  height : Nat
  cells : Array Cell
  head : Place
  saved : List Snapshot
deriving DecidableEq, Repr, Inhabited

inductive BoardFault where
  | emptyColor (color : Color)
  | cannotMove (direction : Direction)
  /-- the cell already holds the largest number of stones -/
  | stoneOverflow (color : Color)
deriving DecidableEq, Repr

namespace Board

/-- A board without stones, with the head at the origin.  Both sides are at least one. -/
def blank (width height : Nat) : Board where
  width := max width 1
  height := max height 1
  cells := Array.replicate (max width 1 * max height 1) Cell.empty
  head := .origin
  saved := []

/-- The board that programs start on when no other is asked for. -/
def standard : Board := blank 9 9

def index (board : Board) (place : Place) : Nat :=
  place.row * board.width + place.column

def contains (board : Board) (place : Place) : Bool :=
  place.column < board.width && place.row < board.height

def cell (board : Board) (place : Place) : Cell :=
  board.cells.getD (board.index place) .empty

/-- The number of stones of a color at a place; none outside the board. -/
def stonesAt (board : Board) (place : Place) (color : Color) : Nat :=
  if board.contains place then (board.cell place).count color else 0

def stones (board : Board) (color : Color) : Nat :=
  (board.cell board.head).count color

def hasStones (board : Board) (color : Color) : Bool :=
  0 < board.stones color

def setStones (board : Board) (place : Place) (color : Color) (number : Nat) : Board :=
  let index := board.index place
  { board with cells := board.cells.modify index fun cell => cell.setCount color number }

def putStone (board : Board) (color : Color) : Except BoardFault Board :=
  let number := board.stones color
  if number < Text.maxCount then .ok (board.setStones board.head color (number + 1))
  else .error (.stoneOverflow color)

def takeStone (board : Board) (color : Color) : Except BoardFault Board :=
  match board.stones color with
  | 0 => .error (.emptyColor color)
  | number + 1 => .ok (board.setStones board.head color number)

def neighbour? (board : Board) (direction : Direction) : Option Place :=
  let column := (board.head.column : Int) + direction.columnStep
  let row := (board.head.row : Int) + direction.rowStep
  if 0 ≤ column ∧ column < board.width ∧ 0 ≤ row ∧ row < board.height then
    some ⟨column.toNat, row.toNat⟩
  else none

def canMove (board : Board) (direction : Direction) : Bool :=
  (board.neighbour? direction).isSome

def moveHead (board : Board) (direction : Direction) : Except BoardFault Board :=
  match board.neighbour? direction with
  | some place => .ok { board with head := place }
  | none => .error (.cannotMove direction)

def goToOrigin (board : Board) : Board :=
  { board with head := .origin }

def clear (board : Board) : Board :=
  { board with cells := board.cells.map fun _ => Cell.empty }

def save (board : Board) : Board :=
  { board with saved := ⟨board.cells, board.head⟩ :: board.saved }

def restore? (board : Board) : Option Board :=
  match board.saved with
  | [] => none
  | snapshot :: earlier =>
      some { board with cells := snapshot.cells, head := snapshot.head, saved := earlier }

def restore (board : Board) : Board :=
  board.restore?.getD board

/-- Same size, stones and head, whatever has been saved. -/
def sameContents (board other : Board) : Bool :=
  board.width == other.width && board.height == other.height &&
    board.head == other.head && board.cells == other.cells

def places (board : Board) : List Place :=
  (List.range board.height).flatMap fun row =>
    (List.range board.width).map fun column => ⟨column, row⟩

end Board

end StoneBoard
