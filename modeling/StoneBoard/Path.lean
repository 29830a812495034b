/-!
# Paths

File paths as text: segments divided by slashes.  Empty segments and segments of one dot
say nothing, except for a dot at the very start.
-/

namespace StoneBoard.Path

def splitFrom (segment : List Char) : List Char → List (List Char)
  | [] => [segment.reverse]
  | '/' :: rest => segment.reverse :: splitFrom [] rest
  | character :: rest => splitFrom (character :: segment) rest

def segments (path : String) : List String :=
  (splitFrom [] path.toList).map String.ofList

def isVoid (segment : String) : Bool := segment.isEmpty || segment == "."

/-- The start of a path that belongs to no segment, and what follows: the slash of an
absolute path, or a dot. -/
def splitStart (path : String) : String × String :=
  match path.toList with
  | '/' :: rest => ("/", String.ofList rest)
  | ['.'] => (".", "")
  | '.' :: '/' :: rest => (".", String.ofList ('/' :: rest))
  | _ => ("", path)

def trimEnd (segments : List String) : List String :=
  (segments.reverse.dropWhile isVoid).reverse

/-- The path up to the last segment that says something. -/
def parent? (path : String) : Option String :=
  let (start, body) := splitStart path
  match (trimEnd (segments body)).reverse with
  | [] => none
  | _ :: outer => some (start ++ String.intercalate "/" (trimEnd outer.reverse))

def directory (file : String) : String :=
  match parent? file with
  | some path => if path.isEmpty then "." else path
  | none => "."

/-- The last segment that says something, unless it leads upwards. -/
def fileName? (path : String) : Option String :=
  match (trimEnd (segments (splitStart path).2)).getLast? with
  | some ".." => none
  | last => last

/-- A file name without its extension; a dot at the start does not begin one. -/
def withoutExtension (name : String) : String :=
  let characters := name.toList.reverse
  match characters.dropWhile fun character => character != '.' with
  | _ :: stem => if stem.isEmpty then name else String.ofList stem.reverse
  | [] => name

def moduleName (file : String) : String :=
  match fileName? file with
  | some name => withoutExtension name
  | none => file

def join (directory name : String) : String :=
  if directory.toList.getLast? = some '/' then directory ++ name
  else directory ++ "/" ++ name

end StoneBoard.Path
