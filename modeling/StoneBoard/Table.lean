/-!
# Tables

Finite maps from names, as lists of entries.  The first entry of a name counts, and
`insert` leaves one entry of a name only.
-/

namespace StoneBoard

abbrev Table (α : Type) := List (String × α)

namespace Table

variable {α : Type}

def get? (table : Table α) (name : String) : Option α := List.lookup name table

def contains (table : Table α) (name : String) : Bool := (table.get? name).isSome

def erase (table : Table α) (name : String) : Table α :=
  table.filter fun entry => entry.1 != name

def insert (table : Table α) (name : String) (value : α) : Table α :=
  (name, value) :: table.erase name

/-- The table with the names of a list set to values, one after the other. -/
def insertAll (table : Table α) (entries : List (String × α)) : Table α :=
  entries.foldl (fun table entry => table.insert entry.1 entry.2) table

def sorted (table : Table α) : List (String × α) :=
  table.mergeSort fun first second => !(second.1 < first.1)

end Table

end StoneBoard
