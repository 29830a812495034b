/-!
# Kinds of routines
-/

namespace StoneBoard

/-- Procedures act on the board; functions compute values. -/
inductive RoutineKind where
  | procedure | function
deriving DecidableEq, Repr

namespace RoutineKind

def name : RoutineKind → String
  | procedure => "procedure"
  | function => "function"

end RoutineKind

end StoneBoard
