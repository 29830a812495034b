import StoneBoard.Board
import StoneBoard.Text.Blank

/-!
# Boards as text

A header line, a line with the size, one for each cell that holds stones, and one for the head.
Readers skip blank lines and those that start with a percent sign, and the last mention of a count
or of the head is the one that counts.
-/

namespace StoneBoard

/-- What is wrong with a board text; lines are counted from one. -/
inductive BoardTextFault where
  | nothing
  | wrongHeader (line : Nat) (found : String)
  | malformedSize (line : Nat)
  | notNumber (line : Nat) (word : String)
  | emptySize (line : Nat)
  | cellBeforeSize (line : Nat)
  | malformedCell (line : Nat)
  | cellOutside (line : Nat)
  | unknownColor (line : Nat) (word : String)
  | badCount (line : Nat) (word : String)
  | malformedHead (line : Nat)
  | unknownDirective (line : Nat) (word : String)
  | missingSize
  | headOutside
deriving DecidableEq, Repr

namespace Board

def textHeader : String := "GBB/1.0"

end Board

namespace BoardTextFault

def message : BoardTextFault → String
  | nothing => "empty board description"
  | wrongHeader line found =>
      s!"line {line}: expected {Board.textHeader}, found '{found}'"
  | malformedSize line => s!"line {line}: malformed size"
  | notNumber line word => s!"line {line}: expected a number, found '{word}'"
  | emptySize line => s!"line {line}: board dimensions must be positive"
  | cellBeforeSize line => s!"line {line}: cell before size"
  | malformedCell line => s!"line {line}: malformed cell"
  | cellOutside line => s!"line {line}: cell out of bounds"
  | unknownColor line word => s!"line {line}: unknown color '{word}'"
  | badCount line word => s!"line {line}: invalid stone count '{word}'"
  | malformedHead line => s!"line {line}: malformed head"
  | unknownDirective line word => s!"line {line}: unknown directive '{word}'"
  | missingSize => "missing size"
  | headOutside => "head out of bounds"

end BoardTextFault

namespace Board

def cellText (cell : Cell) : String :=
  String.join (Color.all.map fun color =>
    if cell.count color = 0 then "" else s!" {color.name} {cell.count color}")

def placeText (board : Board) (place : Place) : String :=
  let cell := board.cell place
  if cell = .empty then "" else s!"cell {place.column} {place.row}{cellText cell}\n"

/-- The text of a board.  Saved states are not written. -/
def toText (board : Board) : String :=
  s!"{textHeader}\nsize {board.width} {board.height}\n" ++
    String.join (board.places.map board.placeText) ++
    s!"head {board.head.column} {board.head.row}\n"

structure TextState where
  board : Option Board
  head : Place

def readNumber (line : Nat) (word : String) : Except BoardTextFault Nat :=
  match Text.readCount? word with
  | some number => .ok number
  | none => .error (.notNumber line word)

def readStones (line : Nat) (place : Place) :
    Board → List String → Except BoardTextFault Board
  | board, colorName :: countText :: rest =>
      match Color.ofName? colorName, Text.readCount? countText with
      | none, _ => .error (.unknownColor line colorName)
      | some _, none => .error (.badCount line countText)
      | some color, some number =>
          readStones line place (board.setStones place color number) rest
  | board, _ => .ok board

def readSize (line : Nat) (state : TextState) :
    List String → Except BoardTextFault TextState
  | [widthText, heightText] =>
      if state.board.isSome then .error (.malformedSize line)
      else do
        let width ← readNumber line widthText
        let height ← readNumber line heightText
        if width = 0 ∨ height = 0 then .error (.emptySize line)
        else .ok { state with board := some (blank width height) }
  | _ => .error (.malformedSize line)

def readCell (line : Nat) (state : TextState) (arguments : List String) :
    Except BoardTextFault TextState :=
  match state.board, arguments with
  | none, _ => .error (.cellBeforeSize line)
  | some board, columnText :: rowText :: stones =>
      if stones.length % 2 = 1 then .error (.malformedCell line)
      else do
        let column ← readNumber line columnText
        let row ← readNumber line rowText
        let place : Place := ⟨column, row⟩
        if board.contains place then
          let board ← readStones line place board stones
          .ok { state with board := some board }
        else .error (.cellOutside line)
  | some _, _ => .error (.malformedCell line)

def readHead (line : Nat) (state : TextState) :
    List String → Except BoardTextFault TextState
  | [columnText, rowText] => do
      let column ← readNumber line columnText
      let row ← readNumber line rowText
      .ok { state with head := ⟨column, row⟩ }
  | _ => .error (.malformedHead line)

def readLine (line : Nat) (state : TextState) (text : String) :
    Except BoardTextFault TextState :=
  match Text.words text with
  | [] => .ok state
  | directive :: arguments =>
      if directive = "size" then readSize line state arguments
      else if directive = "cell" then readCell line state arguments
      else if directive = "head" then readHead line state arguments
      else .error (.unknownDirective line directive)

def readLines : TextState → List (Nat × String) → Except BoardTextFault TextState
  | state, [] => .ok state
  | state, (line, text) :: rest => do
      let state ← readLine line state text
      readLines state rest

/-- The lines that matter, trimmed and numbered from one. -/
def textLines (text : String) : List (Nat × String) :=
  let trimmedLines := (Text.lines text).map Text.trim
  (trimmedLines.zipIdx 1).filterMap fun (line, number) =>
    if line.isEmpty || line.startsWith "%" then none else some (number, line)

def ofText (text : String) : Except BoardTextFault Board :=
  match textLines text with
  | [] => .error .nothing
  | (line, header) :: rest =>
      if header ≠ textHeader then .error (.wrongHeader line header)
      else do
        let state ← readLines ⟨none, .origin⟩ rest
        match state.board with
        | none => .error .missingSize
        | some board =>
            if board.contains state.head then .ok { board with head := state.head }
            else .error .headOutside

end Board

end StoneBoard
