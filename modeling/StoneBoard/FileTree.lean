import StoneBoard.Path

/-!
# File trees

The files that a program can read and write: those of the current directory, and what is known of
the directories outside of it.
-/

namespace StoneBoard

inductive FileFault where
  | notFound
  | isDirectory
  | notDirectory
  | nameTooLong
  /-- a null character in the path -/
  | unusableName
  | notText
deriving DecidableEq, Repr

namespace FileFault

def message : FileFault → String
  | notFound => "No such file or directory (os error 2)"
  | isDirectory => "Is a directory (os error 21)"
  | notDirectory => "Not a directory (os error 20)"
  | nameTooLong => "File name too long (os error 36)"
  | unusableName => "file name contained an unexpected NUL byte"
  | notText => "stream did not contain valid UTF-8"

end FileFault

/-- A place in a tree: the names that lead to it from the top.  Places of absolute paths
start with a slash for a name, and those above the top with two dots. -/
abbrev Location := List String

structure FileTree where
  files : List (Location × ByteArray)
  directories : List Location

namespace FileTree

def empty : FileTree := ⟨[], []⟩

def upwards : String := ".."

def root : Location := ["/"]

def devices : Location := ["/", "dev"]

/-- The place of the file that stays empty, whatever is written to it. -/
def nowhere : Location := devices ++ ["null"]

/-- Whether there is a directory at a place.  Files and directories bring the directories
around them. -/
def isDirectory (tree : FileTree) (place : Location) : Bool :=
  place == root || place == devices || place.all (fun name => name == upwards) ||
    tree.directories.any (fun directory => place.isPrefixOf directory) ||
    tree.files.any fun (file, _) => place.isPrefixOf file && place.length < file.length

def contents? (tree : FileTree) (place : Location) : Option ByteArray :=
  if place = nowhere then some .empty else tree.files.lookup place

inductive Resolved where
  | file (place : Location) (contents : ByteArray)
  | directory (place : Location)
  /-- nothing, but a file could be put there -/
  | vacant (place : Location)
  /-- a name with slashes after it, but no directory: nothing can be put there, and for a
  reader the reason is this -/
  | unentered (reason : FileFault)
  | fault (reason : FileFault)

/-- The directory around a place; the root is its own. -/
def above (place : Location) : Location :=
  if place = root then place
  else if place.all fun name => name == upwards then place ++ [upwards]
  else place.dropLast

def maxNameSize : Nat := 255

def maxPathSize : Nat := 4095

/-- The end of a path at a name that is no directory, with the segments after it. -/
def obstructed (reason : FileFault) (rest : List String) : Resolved :=
  if !rest.isEmpty && rest.all String.isEmpty then .unentered reason else .fault reason

def follow (tree : FileTree) (place : Location) : List String → Resolved
  | [] => .directory place
  | segment :: rest =>
      if Path.isVoid segment then tree.follow place rest
      else if segment = upwards then tree.follow (above place) rest
      else if maxNameSize < segment.utf8ByteSize then obstructed .nameTooLong rest
      else
        let inner := place ++ [segment]
        if tree.isDirectory inner then tree.follow inner rest
        else
          match tree.contents? inner, rest with
          | some contents, [] => .file inner contents
          | some _, _ :: _ => obstructed .notDirectory rest
          | none, [] => .vacant inner
          | none, _ :: _ => obstructed .notFound rest

def placeOf (path : String) : Location :=
  let segments := Path.segments path
  segments.foldl (fun place segment =>
    if Path.isVoid segment then place
    else if segment = upwards then above place
    else place ++ [segment]) (if segments.head? = some "" then root else [])

def resolve (tree : FileTree) (path : String) : Resolved :=
  if path.toList.contains '\x00' then .fault .unusableName
  else if maxPathSize < path.utf8ByteSize then .fault .nameTooLong
  else
    match Path.segments path with
    | [""] => .fault .notFound
    | "" :: segments => tree.follow root segments
    | segments => tree.follow [] segments

def readBytes (tree : FileTree) (path : String) : Except FileFault ByteArray :=
  match tree.resolve path with
  | .file _ contents => .ok contents
  | .directory _ => .error .isDirectory
  | .vacant _ => .error .notFound
  | .unentered reason => .error reason
  | .fault reason => .error reason

def readText (tree : FileTree) (path : String) : Except FileFault String := do
  let contents ← tree.readBytes path
  match String.fromUTF8? contents with
  | some text => return text
  | none => throw .notText

def put (tree : FileTree) (place : Location) (contents : ByteArray) : FileTree :=
  if place = nowhere then tree
  else { tree with files := (place, contents) :: tree.files.filter fun file => file.1 != place }

def writable (tree : FileTree) (path : String) : Except FileFault Location :=
  match tree.resolve path with
  | .file place _ => .ok place
  | .vacant place => .ok place
  | .directory _ => .error .isDirectory
  | .unentered _ => .error .isDirectory
  | .fault reason => .error reason

def writeText (tree : FileTree) (path text : String) : Except FileFault FileTree := do
  let place ← tree.writable path
  return tree.put place text.toUTF8

def addDirectory (tree : FileTree) (place : Location) : FileTree :=
  { tree with directories := place :: tree.directories }

def entries (tree : FileTree) (place : Location) : List String :=
  let inside (location : Location) : Option String :=
    if place.isPrefixOf location then location[place.length]? else none
  (tree.files.filterMap (fun file => inside file.1) ++
    tree.directories.filterMap inside).eraseDups

end FileTree

end StoneBoard
