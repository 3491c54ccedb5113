/-
A directory with everything below it, and the look-up of paths in it.

A path is followed name by name; every name but the last has to lead to a directory, and so has the last if a slash
follows it. Outside of the directory nothing but directories is known. Directories can be opened, but not read.
-/
import FrameGraph.Origin

namespace FrameGraph

/-- files and directories below a directory, each by the names that lead to it -/
structure FileTree where
  files : List (List Name × List UInt8)
  directories : List (List Name)
  deriving DecidableEq, Repr

namespace FileTree

/-- a stop on the way along a path: in the tree, by the names that lead there from its root, or outside -/
inductive Location where
  | directory (names : List Name)
  | file (content : List UInt8)
  | outside
  deriving DecidableEq, Repr

/-- the tree with the files and directories that these paths name; of files under one name the last counts -/
def ofPaths (files : List (Path × List UInt8)) (directories : List Path) : FileTree :=
  let inside (p : Path) := p.names.filter fun n => !Path.isIdle n
  ⟨(files.map fun f => (inside f.1, f.2)).reverse, directories.map inside⟩

/-- whether there is a directory under these names, be it only as a part of other paths -/
def hasDirectory (t : FileTree) (names : List Name) : Bool :=
  names.isEmpty || t.directories.any names.isPrefixOf || t.files.any fun f => f.1 != names && names.isPrefixOf f.1

/-- follow a name -/
def enter (t : FileTree) (here : Location) (n : Name) : Except FileError Location :=
  match here with
  | .file _ => .error .notDirectory
  | .outside =>
    if Path.isIdle n || Path.isParent n then .ok .outside
    else if 255 < n.length then .error .nameTooLong
    else .error .notFound
  | .directory names =>
    if Path.isIdle n then .ok here
    else if Path.isParent n then .ok (if names.isEmpty then .outside else .directory names.dropLast)
    else if 255 < n.length then .error .nameTooLong
    else
      let below := names ++ [n]
      match t.files.lookup below with
      | some content => .ok (.file content)
      | none => if t.hasDirectory below then .ok (.directory below) else .error .notFound

/-- where a path leads -/
def find (t : FileTree) (p : Path) : Except FileError Location :=
  if p.bytes.isEmpty then .error .notFound
  else if p.bytes.contains 0 then .error .zeroInPath
  else if 4096 ≤ p.bytes.length then .error .nameTooLong
  else p.names.foldlM t.enter (if p.isAbsolute then .outside else .directory [])

/-- what reading there delivers -/
def Location.source : Location → ByteSource
  | .file content => .ofBytes content
  | .directory _ | .outside => ⟨[], some FileError.isDirectory.message⟩

/-- the tree as files to read -/
def toFiles (t : FileTree) : Files := fun p => (t.find p).map Location.source

end FileTree

end FrameGraph
