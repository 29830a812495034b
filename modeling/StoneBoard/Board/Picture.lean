import StoneBoard.Board
import StoneBoard.Text.Column

/-!
# Pictures of boards

A board is drawn with its north row on top.  Each cell shows its numbers of stones in
color order, a point for none, and the cell of the head stands in brackets.
-/

namespace StoneBoard.Board

def cellWidth : Nat := 9

def cellPicture (cell : Cell) : String :=
  String.intercalate "," (Color.all.map fun color =>
    if cell.count color = 0 then "." else toString (cell.count color))

def placePicture (board : Board) (place : Place) : String :=
  let numbers := Text.centre cellWidth (cellPicture (board.cell place))
  if place = board.head then "[" ++ numbers ++ "]" else " " ++ numbers ++ " "

def rowPicture (board : Board) (row : Nat) : String :=
  Text.alignRight 3 (toString row) ' ' ++ " " ++
    String.join ((List.range board.width).map fun column =>
      board.placePicture ⟨column, row⟩) ++ "\n"

def picture (board : Board) : String :=
  String.join ((List.range board.height).reverse.map board.rowPicture) ++
    "    " ++
    String.join ((List.range board.width).map fun column =>
      " " ++ Text.centre cellWidth (toString column) ++ " ") ++ "\n"

end StoneBoard.Board
