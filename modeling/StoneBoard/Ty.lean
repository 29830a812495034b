/-!
# Types

Basic types classify scalar values.  A static type may also be unknown, or a list of
some type; types are ordered by how much they tell.
-/

namespace StoneBoard

inductive BasicTy where
  | bool | int | color | direction
deriving DecidableEq, Repr, Inhabited

namespace BasicTy

def all : List BasicTy := [bool, int, color, direction]

def name : BasicTy → String
  | bool => "Bool"
  | int => "Int"
  | color => "Color"
  | direction => "Dir"

def ofName? (text : String) : Option BasicTy :=
  all.find? fun ty => ty.name == text

/-- All lists of basic types of a given length, the last place varying fastest. -/
def tuples : Nat → List (List BasicTy)
  | 0 => [[]]
  | length + 1 =>
      (tuples length).flatMap fun shorter => all.map fun ty => shorter ++ [ty]

end BasicTy

inductive Ty where
  | unknown
  | basic (ty : BasicTy)
  | list (element : Ty)
deriving DecidableEq, Repr, Inhabited

namespace Ty

abbrev bool : Ty := .basic .bool

abbrev int : Ty := .basic .int

abbrev color : Ty := .basic .color

abbrev direction : Ty := .basic .direction

def basic? : Ty → Option BasicTy
  | basic ty => some ty
  | _ => none

/-- Two types are compatible unless both are known and disagree. -/
def compatible : Ty → Ty → Bool
  | unknown, _ => true
  | _, unknown => true
  | basic first, basic second => first == second
  | list first, list second => compatible first second
  | _, _ => false

/-- What two compatible types tell together; the first of two that disagree. -/
def unify : Ty → Ty → Ty
  | unknown, other => other
  | known, unknown => known
  | list first, list second => list (unify first second)
  | known, _ => known

def render : Ty → String
  | unknown => "?"
  | basic ty => ty.name
  | list element => "List(" ++ element.render ++ ")"

end Ty

/-- The name of the variant of a routine for given argument types: every type follows
the name after an at sign. -/
def variantName (name : String) (types : List BasicTy) : String :=
  types.foldl (fun text ty => text ++ "@" ++ ty.name) name

def plainName (name : String) : String :=
  String.ofList (name.toList.takeWhile fun character => character != '@')

end StoneBoard
