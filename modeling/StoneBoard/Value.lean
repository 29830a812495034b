import StoneBoard.Color
import StoneBoard.Direction
import StoneBoard.Ty

/-!
# Values

Scalars and lists of values.  Lists may mix types.  The neighbour operations work on
every value, on lists element by element, and values are compared by their sequences of
ordinals.
-/

namespace StoneBoard

inductive Value where
  | int (number : Int)
  | bool (truth : Bool)
  | color (shade : Color)
  | direction (heading : Direction)
  | list (items : List Value)
deriving Repr, Inhabited

namespace Value

mutual

def decideEq : (first second : Value) → Decidable (first = second)
  | .int first, .int second =>
      if same : first = second then isTrue (by rw [same])
      else isFalse (by intro equal; injection equal; contradiction)
  | .bool first, .bool second =>
      if same : first = second then isTrue (by rw [same])
      else isFalse (by intro equal; injection equal; contradiction)
  | .color first, .color second =>
      if same : first = second then isTrue (by rw [same])
      else isFalse (by intro equal; injection equal; contradiction)
  | .direction first, .direction second =>
      if same : first = second then isTrue (by rw [same])
      else isFalse (by intro equal; injection equal; contradiction)
  | .list first, .list second =>
      match decideEqAll first second with
      | isTrue same => isTrue (by rw [same])
      | isFalse different => isFalse (by intro equal; injection equal; contradiction)
  | .int _, .bool _ | .int _, .color _ | .int _, .direction _ | .int _, .list _
  | .bool _, .int _ | .bool _, .color _ | .bool _, .direction _ | .bool _, .list _
  | .color _, .int _ | .color _, .bool _ | .color _, .direction _ | .color _, .list _
  | .direction _, .int _ | .direction _, .bool _ | .direction _, .color _
  | .direction _, .list _
  | .list _, .int _ | .list _, .bool _ | .list _, .color _ | .list _, .direction _ =>
      isFalse (by intro equal; injection equal)

def decideEqAll : (first second : List Value) → Decidable (first = second)
  | [], [] => isTrue rfl
  | [], _ :: _ | _ :: _, [] => isFalse (by intro equal; injection equal)
  | firstHead :: firstTail, secondHead :: secondTail =>
      match decideEq firstHead secondHead with
      | isFalse different => isFalse (by intro equal; injection equal; contradiction)
      | isTrue sameHead =>
          match decideEqAll firstTail secondTail with
          | isFalse different => isFalse (by intro equal; injection equal; contradiction)
          | isTrue sameTail => isTrue (by rw [sameHead, sameTail])

end

instance : DecidableEq Value := decideEq

/-- The basic type of a scalar; lists have none. -/
def basicTy? : Value → Option BasicTy
  | int _ => some .int
  | bool _ => some .bool
  | color _ => some .color
  | direction _ => some .direction
  | list _ => none

def typeName (value : Value) : String :=
  match value.basicTy? with
  | some ty => ty.name
  | none => "List"

mutual

/-- The static type of a value; a list is judged by its first element. -/
def ty : Value → Ty
  | .int _ => .int
  | .bool _ => .bool
  | .color _ => .color
  | .direction _ => .direction
  | .list items => .list (elementTy items)

def elementTy : List Value → Ty
  | [] => .unknown
  | first :: _ => ty first

end

def constant? (name : String) : Option Value :=
  if name = "True" then some (bool true)
  else if name = "False" then some (bool false)
  else ((Color.ofName? name).map color).or ((Direction.ofName? name).map direction)

mutual

def render : Value → String
  | .int number => toString number
  | .bool true => "True"
  | .bool false => "False"
  | .color shade => shade.name
  | .direction heading => heading.name
  | .list items => "[" ++ String.intercalate ", " (renderAll items) ++ "]"

def renderAll : List Value → List String
  | [] => []
  | first :: rest => render first :: renderAll rest

end

mutual

def next : Value → Value
  | .bool truth => .bool !truth
  | .int number => .int (number + 1)
  | .color shade => .color shade.next
  | .direction heading => .direction heading.next
  | .list items => .list (nextAll items)

def nextAll : List Value → List Value
  | [] => []
  | first :: rest => next first :: nextAll rest

end

mutual

def previous : Value → Value
  | .bool truth => .bool !truth
  | .int number => .int (number - 1)
  | .color shade => .color shade.previous
  | .direction heading => .direction heading.previous
  | .list items => .list (previousAll items)

def previousAll : List Value → List Value
  | [] => []
  | first :: rest => previous first :: previousAll rest

end

mutual

/-- The value across the circle, or the negation. -/
def opposite : Value → Value
  | .bool truth => .bool !truth
  | .int number => .int (-number)
  | .color shade => .color shade.opposite
  | .direction heading => .direction heading.opposite
  | .list items => .list (oppositeAll items)

def oppositeAll : List Value → List Value
  | [] => []
  | first :: rest => opposite first :: oppositeAll rest

end

mutual

/-- The ordinals of a value: one for a scalar, those of the elements in turn for a
list. -/
def ordinals : Value → List Int
  | .bool truth => [if truth then 1 else 0]
  | .int number => [number]
  | .color shade => [(shade.ordinal : Int)]
  | .direction heading => [(heading.ordinal : Int)]
  | .list items => ordinalsAll items

def ordinalsAll : List Value → List Int
  | [] => []
  | first :: rest => ordinals first ++ ordinalsAll rest

end

/-- Values can be compared if both are lists or both have the same basic type. -/
def comparable : Value → Value → Bool
  | list _, list _ => true
  | first, second =>
      match first.basicTy?, second.basicTy? with
      | some firstTy, some secondTy => firstTy == secondTy
      | _, _ => false

def compareOrdinals : List Int → List Int → Ordering
  | [], [] => .eq
  | [], _ :: _ => .lt
  | _ :: _, [] => .gt
  | first :: firstRest, second :: secondRest =>
      if first < second then .lt
      else if second < first then .gt
      else compareOrdinals firstRest secondRest

def compare? (first second : Value) : Option Ordering :=
  if comparable first second then
    some (compareOrdinals first.ordinals second.ordinals)
  else none

end Value

abbrev Bindings := List (String × Value)

end StoneBoard
