/-!
# Stone colors

The four colors in their fixed order.  The order is a circle for `next`, `previous` and
`opposite`.
-/

namespace StoneBoard

inductive Color where
  | blue | black | red | green
deriving DecidableEq, Repr, Inhabited

namespace Color

def all : List Color := [blue, black, red, green]

def name : Color → String
  | blue => "Blue"
  | black => "Black"
  | red => "Red"
  | green => "Green"

def ofName? (text : String) : Option Color :=
  all.find? fun color => color.name == text

def ordinal : Color → Nat
  | blue => 0
  | black => 1
  | red => 2
  | green => 3

def ofOrdinal (place : Nat) : Color :=
  match place % 4 with
  | 0 => blue
  | 1 => black
  | 2 => red
  | _ => green

def next (color : Color) : Color := ofOrdinal (color.ordinal + 1)

def previous (color : Color) : Color := ofOrdinal (color.ordinal + 3)

def opposite (color : Color) : Color := ofOrdinal (color.ordinal + 2)

def least : Color := blue

def greatest : Color := green

theorem ofName?_name (color : Color) : ofName? color.name = some color := by
  cases color <;> rfl

@[simp]
theorem ofOrdinal_ordinal (color : Color) : ofOrdinal color.ordinal = color := by
  cases color <;> rfl

theorem ordinal_lt (color : Color) : color.ordinal < 4 := by
  cases color <;> decide

end Color

end StoneBoard
