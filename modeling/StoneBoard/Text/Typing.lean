import StoneBoard.Text.Cluster

/-!
# Typed lines

A line as it comes from a keyboard: a backspace takes back the cluster before it.  The size of a
cluster is noted in a byte, so from one of 256 bytes or more a backspace takes back only the bytes
that are left over when the full 256s are taken away.
-/

namespace StoneBoard.Text

structure Typing where
  /-- the characters so far, the last one first -/
  characters : List Char
  /-- the noted sizes of the clusters that can be taken back, the last one first -/
  sizes : List Nat
deriving DecidableEq, Repr

namespace Typing

def backspace : Char := '\x08'

def start : Typing := ⟨[], []⟩

def sizeLimit : Nat := 256

def byteCount (characters : List Char) : Nat :=
  characters.foldl (fun size character => size + character.utf8Size) 0

/-- Characters without the first bytes of them; none if that would cut one apart. -/
def dropBytes : Nat → List Char → Option (List Char)
  | 0, characters => some characters
  | _ + 1, [] => none
  | count + 1, character :: rest =>
      if count + 1 < character.utf8Size then none
      else dropBytes (count + 1 - character.utf8Size) rest

def add (typing : Typing) (cluster : List Char) : Typing :=
  ⟨cluster.reverse ++ typing.characters, byteCount cluster % sizeLimit :: typing.sizes⟩

/-- The line without its last cluster; none if that would cut a character apart. -/
def takeBack (typing : Typing) : Option Typing :=
  match typing.sizes with
  | [] => some typing
  | size :: sizes =>
      (dropBytes size typing.characters).map fun characters => ⟨characters, sizes⟩

def press (typing : Typing) (cluster : List Char) : Option Typing :=
  if cluster = [backspace] then typing.takeBack else some (typing.add cluster)

end Typing

/-- A line as it was meant; none if a character would be cut apart. -/
def corrected (line : String) : Option String :=
  ((clusters line.toList).foldlM Typing.press Typing.start).map fun typing =>
    String.ofList typing.characters.reverse

end StoneBoard.Text
