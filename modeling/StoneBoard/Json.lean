/-!
# JSON

JSON values as they are exchanged with other processes.  Objects keep the order and the repetition
of their keys, and numbers that are not whole numbers of 64 bits are kept as they were written.
-/

namespace StoneBoard

inductive Json where
  | null
  | bool (truth : Bool)
  /-- a whole number from `-2 ^ 63` to `2 ^ 64 - 1` -/
  | int (number : Int)
  /-- any other number, as it was written -/
  | real (text : String)
  | string (text : String)
  | array (items : List Json)
  | object (fields : List (String × Json))
deriving Repr, Inhabited

namespace Json

def nat (number : Nat) : Json := .int number

def strings (texts : List String) : Json := .array (texts.map .string)

def ofOption {α : Type} (write : α → Json) : Option α → Json
  | some value => write value
  | none => .null

def string? : Json → Option String
  | string text => some text
  | _ => none

def bool? : Json → Option Bool
  | bool truth => some truth
  | _ => none

def int? : Json → Option Int
  | int number => some number
  | _ => none

def nat? : Json → Option Nat
  | int (.ofNat number) => some number
  | _ => none

def array? : Json → Option (List Json)
  | array items => some items
  | _ => none

def object? : Json → Option (List (String × Json))
  | object fields => some fields
  | _ => none

def field? (json : Json) (key : String) : Option Json :=
  match json with
  | object fields => (fields.find? fun field => field.1 == key).map Prod.snd
  | _ => none

/-- The fields of a record, in the order of `names`: absent ones are `none`, and a name
that is given twice is an error.  Where `positional` is set, the fields may also stand in
an array, all of them and in order. -/
def record? (positional : Bool) (names : List String) (json : Json) :
    Option (List (Option Json)) :=
  match json with
  | object fields =>
      let given := fields.map Prod.fst
      if names.any fun name => 1 < given.count name then none
      else some (names.map fun name => json.field? name)
  | array items =>
      if positional && items.length == names.length then some (items.map some) else none
  | _ => none

end Json

end StoneBoard
