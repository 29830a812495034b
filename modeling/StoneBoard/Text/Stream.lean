import StoneBoard.FileTree

/-!
# Lines of a stream

A stream of bytes is read line by line.  Lines end with a line feed, in front of which a
carriage return is dropped, and each of them has to be valid UTF-8.
-/

namespace StoneBoard.Text

def dropReturn : List UInt8 → List UInt8
  | 13 :: line => line
  | line => line

/-- Lines of the bytes, where `line` holds the line begun so far, last byte first. -/
def byteLinesFrom (line : List UInt8) : List UInt8 → List (List UInt8)
  | [] => if line.isEmpty then [] else [line.reverse]
  | byte :: rest =>
      if byte = 10 then (dropReturn line).reverse :: byteLinesFrom [] rest
      else byteLinesFrom (byte :: line) rest

def decodeBytes (bytes : List UInt8) : Except FileFault String :=
  match String.fromUTF8? ⟨bytes.toArray⟩ with
  | some text => .ok text
  | none => .error .notText

def streamLines (stream : ByteArray) : List (Except FileFault String) :=
  (byteLinesFrom [] stream.data.toList).map decodeBytes

end StoneBoard.Text
