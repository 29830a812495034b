/-!
# Source positions

A position is a byte offset in the UTF-8 encoding of a text together with the line and
the column there.  Lines and columns count from one, columns in characters.
-/

namespace StoneBoard

structure Position where
  offset : Nat
  line : Nat
  column : Nat
deriving DecidableEq, Repr, Inhabited

namespace Position

def start : Position := ⟨0, 1, 1⟩

def after (position : Position) (character : Char) : Position :=
  if character = '\n' then
    ⟨position.offset + character.utf8Size, position.line + 1, 1⟩
  else
    ⟨position.offset + character.utf8Size, position.line, position.column + 1⟩

def afterAll (position : Position) (characters : List Char) : Position :=
  characters.foldl after position

end Position

/-- A stretch of source text: byte offsets of both ends, and the line and column where
it starts. -/
structure Span where
  start : Nat
  stop : Nat
  line : Nat
  column : Nat
deriving DecidableEq, Repr, Inhabited

namespace Span

def nowhere : Span := ⟨0, 0, 0, 0⟩

def between (position : Position) (stop : Nat) : Span :=
  ⟨position.offset, stop, position.line, position.column⟩

def extend (first last : Span) : Span :=
  { first with stop := max last.stop first.stop }

end Span

end StoneBoard
