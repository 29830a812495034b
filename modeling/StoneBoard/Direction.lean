/-!
# Directions

The four directions in compass order, and the step each one takes on the board.
-/

namespace StoneBoard

inductive Direction where
  | north | east | south | west
deriving DecidableEq, Repr, Inhabited

namespace Direction

def all : List Direction := [north, east, south, west]

def name : Direction → String
  | north => "North"
  | east => "East"
  | south => "South"
  | west => "West"

def ofName? (text : String) : Option Direction :=
  all.find? fun direction => direction.name == text

def ordinal : Direction → Nat
  | north => 0
  | east => 1
  | south => 2
  | west => 3

def ofOrdinal (place : Nat) : Direction :=
  match place % 4 with
  | 0 => north
  | 1 => east
  | 2 => south
  | _ => west

def next (direction : Direction) : Direction := ofOrdinal (direction.ordinal + 1)

def previous (direction : Direction) : Direction := ofOrdinal (direction.ordinal + 3)

def opposite (direction : Direction) : Direction := ofOrdinal (direction.ordinal + 2)

def least : Direction := north

def greatest : Direction := west

/-- Change of row: rows grow to the north. -/
def rowStep : Direction → Int
  | north => 1
  | south => -1
  | _ => 0

/-- Change of column: columns grow to the east. -/
def columnStep : Direction → Int
  | east => 1
  | west => -1
  | _ => 0

theorem ofName?_name (direction : Direction) : ofName? direction.name = some direction := by
  cases direction <;> rfl

@[simp]
theorem ofOrdinal_ordinal (direction : Direction) :
    ofOrdinal direction.ordinal = direction := by
  cases direction <;> rfl

theorem ordinal_lt (direction : Direction) : direction.ordinal < 4 := by
  cases direction <;> decide

end Direction

end StoneBoard
