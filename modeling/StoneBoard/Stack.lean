import StoneBoard.Value

/-!
# Operand stacks

A stack of values that knows its height.
-/

namespace StoneBoard

/-- A stack, the value pushed last at the head. -/
structure Stack where
  items : List Value
  height : Nat
  height_eq : height = items.length

namespace Stack

def empty : Stack := ⟨[], 0, rfl⟩

def push (stack : Stack) (value : Value) : Stack :=
  ⟨value :: stack.items, stack.height + 1, by simp [stack.height_eq]⟩

def pop? (stack : Stack) : Option (Value × Stack) :=
  match stack with
  | ⟨[], _, _⟩ => none
  | ⟨value :: rest, height, counted⟩ =>
      some (value, ⟨rest, height - 1, by simp [counted]⟩)

/-- The values pushed last, in the order in which they were pushed, and the stack below
them. -/
def popMany? (stack : Stack) (count : Nat) : Option (List Value × Stack) :=
  if stack.height < count then none
  else
    some ((stack.items.take count).reverse,
      ⟨stack.items.drop count, stack.height - count, by simp [stack.height_eq]⟩)

def pushMany (stack : Stack) (values : List Value) : Stack :=
  values.foldl push stack

/-- The lowest part of a stack, up to a height. -/
def truncate (stack : Stack) (height : Nat) : Stack :=
  ⟨stack.items.drop (stack.height - height), stack.height - (stack.height - height),
    by simp [stack.height_eq]⟩

end Stack

end StoneBoard
