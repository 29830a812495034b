import StoneBoard.FileTree

/-!
# Effects

What a command does to the world around it, as a list that can be carried out later or
looked at.
-/

namespace StoneBoard

inductive Effect where
  | print (text : String)
  | complain (text : String)
  | write (path text : String)
deriving DecidableEq, Repr

namespace Effect

def line (text : String) : String := text ++ "\n"

def printed (effects : List Effect) : String :=
  String.join (effects.filterMap fun
    | print text => some text
    | _ => none)

def complaints (effects : List Effect) : String :=
  String.join (effects.filterMap fun
    | complain text => some text
    | _ => none)

def enact (tree : FileTree) : Effect → FileTree
  | write path text =>
      match tree.writeText path text with
      | .ok changed => changed
      | .error _ => tree
  | _ => tree

def enactAll (tree : FileTree) (effects : List Effect) : FileTree :=
  effects.foldl enact tree

end Effect

end StoneBoard
