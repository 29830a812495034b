import StoneBoard.Error
import StoneBoard.FileTree
import StoneBoard.Table

/-!
# Catalogues

Where the texts of modules come from: a finite list of modules by name, either given as
texts or found as files in one directory.
-/

namespace StoneBoard

def moduleExtension : String := ".gbs"

inductive Supply where
  | text (file source : String)
  | garbled (file : String)
  | directory (file : String)

def Supply.read (span : Span) : Supply → Except Error (String × String)
  | text file source => .ok (file, source)
  | garbled file => .error (.located (.io s!"{file}: {FileFault.notText.message}") span)
  | directory file =>
      .error (.located (.io s!"{file}: {FileFault.isDirectory.message}") span)

structure Shelf where
  directory : String
  /-- set if it cannot be searched -/
  fault : Option FileFault

namespace Shelf

def fileOf (shelf : Shelf) (name : String) : String :=
  Path.join shelf.directory (name ++ moduleExtension)

def faultFor (shelf : Shelf) (name : String) : FileFault :=
  if FileTree.maxPathSize < (shelf.fileOf name).utf8ByteSize then .nameTooLong
  else
    match shelf.fault with
    | some fault => fault
    | none =>
        if FileTree.maxNameSize < (name ++ moduleExtension).utf8ByteSize then .nameTooLong
        else .notFound

end Shelf

structure Catalogue where
  supplies : Table Supply
  /-- where the modules have been looked for, if not all of them are given as texts -/
  shelf : Option Shelf

namespace Catalogue

def empty : Catalogue := ⟨[], none⟩

def addText (catalogue : Catalogue) (name source : String) : Catalogue :=
  { catalogue with
    supplies := catalogue.supplies.insert name (.text (name ++ moduleExtension) source) }

def moduleOf? (entry : String) : Option String :=
  let extension := moduleExtension.toList.reverse
  let reversed := entry.toList.reverse
  if extension.isPrefixOf reversed then
    some (String.ofList (reversed.drop extension.length).reverse)
  else none

def supplyOf (tree : FileTree) (file : String) : Option Supply :=
  match tree.readText file with
  | .ok source => some (.text file source)
  | .error .notText => some (.garbled file)
  | .error .isDirectory => some (.directory file)
  | .error _ => none

def ofDirectory (tree : FileTree) (directory : String) : Catalogue :=
  let without (fault : FileFault) : Catalogue := ⟨[], some ⟨directory, some fault⟩⟩
  match tree.resolve directory with
  | .directory place =>
      let supplies := (tree.entries place).filterMap fun entry => do
        let name ← moduleOf? entry
        let supply ← supplyOf tree (Path.join directory entry)
        return (name, supply)
      ⟨supplies, some ⟨directory, none⟩⟩
  | .file _ _ => without .notDirectory
  | .vacant _ => without .notFound
  | .unentered fault => without fault
  | .fault fault => without fault

def besides (tree : FileTree) (file : String) : Catalogue :=
  ofDirectory tree (Path.directory file)

def offers (catalogue : Catalogue) (name : String) : Bool :=
  match catalogue.supplies.get? name with
  | some (.text _ _) => true
  | some (.garbled _) => true
  | _ => false

def absence (catalogue : Catalogue) (name : String) (span : Span) : Error :=
  match catalogue.shelf with
  | none => .located (.moduleNotFound name) span
  | some shelf =>
      match shelf.faultFor name with
      | .notFound => .located (.moduleNotFound name) span
      | fault => .located (.io s!"{shelf.fileOf name}: {fault.message}") span

end Catalogue

end StoneBoard
